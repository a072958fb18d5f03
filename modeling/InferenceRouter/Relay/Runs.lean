import InferenceRouter.Relay.Backends

/-!
# The steps of the runs

A run makes a call, goes on with one, or returns from it.  `Doing` collects what
is known of it there, and `Holding` what is known of the connection that it has
borrowed.  A step first changes the connection, the client or the descriptor, then
the run itself: `Doing.goOn` is the rule for a call that returns, `Doing.turn` the
rule for one that goes on.  What remains for each call is how the client's side and
the side of the connection move.
-/

namespace InferenceRouter.Relay

open Interleaving Connection Handler

variable {R : Service} {s s₁ : State} {i j n : Nat} {b : Backend} {run : Run} {o : Op}
  {k : o.Ret → Code Unit} {c c' : Client} {g : Phase} {l : Lease} {e fd : Nat} {st st' : Stage}
  {act act' : Activity}

/-! ## The protocol -/

/-- No call opens the client again. -/
theorem Phase.isOpen_of_next {r : o.Ret} (h : (g.next o r).isOpen = true) : g.isOpen = true := by
  cases o with
  | acceptHandshake t =>
      simp only [Phase.next] at h
      split at h
      next => exact h
      next => cases h
  | safeClose | closeStream => cases h
  | incInFlight | decInFlight | incCompleted | incErrored | readMessage | writeMessage
  | replyErrorPlain | replyErrorTls | poolBorrow | poolRelease | setBorrow | setRelease => exact h

/-- After the whole answer was passed on and the connection released, the exchange
is over. -/
theorem Phase.stage_next_ended (hallow : g.allows o) (hst : g.stage = .ended true) (r : o.Ret) :
    (g.next o r).stage = .ended true := by
  cases o with
  | readMessage peer maxPayload t =>
      cases peer <;> simp [Phase.allows, hst] at hallow
  | writeMessage peer data t =>
      cases peer <;> simp [Phase.allows, hst] at hallow
  | acceptHandshake | poolBorrow | setBorrow => simp [Phase.allows, hst] at hallow
  | poolRelease | setRelease => simp [Phase.allows, Stage.Releases, hst] at hallow
  | incInFlight | decInFlight | incCompleted | incErrored | replyErrorPlain | replyErrorTls
  | safeClose | closeStream => exact hst

/-- What a call writes, and where the exchange is then: the answer to the client,
the request to the connection, or an error to the client. -/
theorem Phase.writes (hallow : g.allows o) {m : Message} (hm : message o = some m) :
    ((m.peer = .client ∨ m.peer = .clientTls) ∧ g.isOpen = true ∧ m.isResponse = true ∧
        ∃ l q, g.stage = .answered l q m.data) ∨
      (∃ l, m.peer = .backend l.fd ∧ g.stage = .lent l m.data) ∨
      ((m.peer = .client ∨ m.peer = .clientTls) ∧ g.isOpen = true ∧ m.isResponse = false ∧
        (g.stage = .ended false ∨ ∃ l, g.stage = .spoilt l)) := by
  cases o with
  | writeMessage peer data t =>
      cases hm
      cases peer with
      | client => exact .inl ⟨.inl rfl, hallow.1, rfl, hallow.2⟩
      | clientTls => exact .inl ⟨.inr rfl, hallow.1, rfl, hallow.2⟩
      | backend fd =>
          obtain ⟨l, hst, rfl⟩ := hallow
          exact .inr (.inl ⟨l, rfl, hst⟩)
  | replyErrorPlain msg t =>
      cases hm
      exact .inr (.inr ⟨.inl rfl, hallow.1, rfl, hallow.2⟩)
  | replyErrorTls msg t =>
      cases hm
      exact .inr (.inr ⟨.inr rfl, hallow.1, rfl, hallow.2⟩)
  | incInFlight | decInFlight | incCompleted | incErrored | acceptHandshake | readMessage
  | poolBorrow | poolRelease | setBorrow | setRelease | safeClose | closeStream => cases hm

/-- A write that returns moves the exchange by its status; an error reply does not
move it. -/
theorem Phase.next_wrote (hallow : g.allows o) {status : IoStatus} {r : o.Ret}
    (hr : wrote o status = some r) : g.next o r = { g with stage := g.stage.write status } := by
  cases o with
  | writeMessage =>
      cases hr
      rfl
  | replyErrorPlain | replyErrorTls =>
      obtain ⟨isOpen, stage⟩ := g
      obtain ⟨-, hst | ⟨l, hst⟩⟩ := hallow
      · cases hst
        rfl
      · cases hst
        rfl
  | incInFlight | decInFlight | incCompleted | incErrored | acceptHandshake | readMessage
  | poolBorrow | poolRelease | setBorrow | setRelease | safeClose | closeStream => cases hr

/-- Where the exchange is when a call reads. -/
theorem Phase.reads {peer : Peer} {maxPayload : Nat} {t : Int}
    (hallow : g.allows (.readMessage peer maxPayload t)) :
    ((peer = .client ∨ peer = .clientTls) ∧ g.isOpen = true ∧ g.stage = .start) ∨
      ∃ l q, peer = .backend l.fd ∧ g.stage = .sent l q := by
  cases peer with
  | client => exact .inl ⟨.inl rfl, hallow⟩
  | clientTls => exact .inl ⟨.inr rfl, hallow⟩
  | backend fd =>
      obtain ⟨l, q, hst, rfl⟩ := hallow
      exact .inr ⟨l, q, rfl, hst⟩

/-! ## The client's side -/

theorem Answered.of_silent (h : c.response = []) : Answered R c false := ⟨.inl h, by simp⟩

/-- At no stage has the client got anything else than a part of its answer. -/
theorem ClientSide.answered (h : ClientSide R c st act) : Answered R c false := by
  cases st with
  | start =>
      cases act with
      | reading r => exact .of_silent h.2
      | idle | writing | borrowing | releasing => exact .of_silent h.2
  | request q | lent l q | sent l q => exact .of_silent h.2.2
  | answered l q p =>
      cases act with
      | writing w =>
          obtain ⟨hreceived, rfl, -, hresponse⟩ := h
          exact ⟨.inr ⟨q, hreceived, hresponse ▸ List.take_prefix _ _⟩, by simp⟩
      | idle | reading | borrowing | releasing => exact .of_silent h.2.2
  | replied l whole => exact ⟨h.part, by simp⟩
  | spoilt l => exact h
  | ended whole => exact ⟨h.part, by simp⟩

/-! ## The connection -/

/-- The run has the lease `l`: the descriptor `fd` of pool `i`, under the entry `e`,
which names the `n`-th connection. -/
structure Holding (s : State) (run : Run) (l : Lease) (i e : Nat) (b : Backend) (fd n : Nat) :
    Prop where
  ticket : run.ticket = some (i, e)
  pool : l.From run.pool i
  backend : s.backends[i]? = some b
  held : b.pool.callers[e]? = some (.held fd)
  fd_eq : (fd : Int) = l.fd
  file : s.table fd = some (.conn i n)

theorem Holding.peerFile (h : Holding s run l i e b fd n) :
    s.peerFile run (.backend l.fd) = some (.conn i n) := by
  simp only [State.peerFile, ← h.fd_eq, Int.toNat_natCast]
  rw [if_neg (by omega), h.file]

theorem Holding.leaseSide (h : Holding s run l i e b fd n) (hl : inHand st act = some l)
    (hserver : ServerSide R st act (b.conns n)) : LeaseSide R s run st act := by
  unfold LeaseSide
  rw [hl]
  refine ⟨i, e, h.ticket, h.pool, b, fd, h.backend, h.held, h.fd_eq, ?_⟩
  intro m hm
  rw [h.file] at hm
  cases hm
  exact hserver

/-- The lease after bytes have gone over the connection. -/
theorem Holding.converse (h : Holding s run l i e b fd n) (hl : inHand st act = some l)
    {x : Stream} (hserver : ServerSide R st act x) :
    LeaseSide R (s.setConn i b n x) run st act := by
  have hafter : Holding (s.setConn i b n x) run l i e
      { b with conns := Function.update b.conns n x } fd n :=
    ⟨h.ticket, h.pool, setConn_backend h.backend, h.held, h.fd_eq, h.file⟩
  refine hafter.leaseSide hl ?_
  show ServerSide R st act (Function.update b.conns n x n)
  rwa [Function.update_self]

/-- The exchange goes on, and no byte has gone over the connection. -/
theorem LeaseSide.imp (h : LeaseSide R s run st act) (hl : inHand st' act' = inHand st act)
    (hserver : ∀ x, ServerSide R st act x → ServerSide R st' act' x) :
    LeaseSide R s run st' act' := by
  unfold LeaseSide at h ⊢
  rw [hl]
  split at h
  next => exact h
  next l _ =>
    obtain ⟨i, e, hticket, hpool, b, fd, hb, hheld, hfd, hP⟩ := h
    exact ⟨i, e, hticket, hpool, b, fd, hb, hheld, hfd, fun n hn => hserver _ (hP n hn)⟩

/-- What the run has in hand stays there when other files are closed. -/
theorem LeaseSide.closeFd (h : LeaseSide R s run st act) (fd : Nat) :
    LeaseSide R (s.closeFd fd) run st act := by
  simp only [LeaseSide] at h ⊢
  split at h
  next => exact h
  next l _ =>
    obtain ⟨i, e, hticket, hpool, b, fd', hb, hheld, hfd, hP⟩ := h
    refine ⟨i, e, hticket, hpool, b, fd', hb, hheld, hfd, ?_⟩
    intro n hn
    apply hP
    by_cases heq : fd' = fd
    · simp [State.closeFd, heq] at hn
    · simpa [State.closeFd, Function.update_of_ne heq] using hn

/-! ## A call -/

/-- Run `j` is at the call `o`. -/
structure Doing (R : Service) (s : State) (j : Nat) (run : Run) (o : Op) (k : o.Ret → Code Unit)
    (c : Client) (g : Phase) : Prop where
  relayed : Relayed R s none
  atRun : s.runs[j]? = some run
  atCall : run.rest = .call o k
  atClient : s.clients[j]? = some c
  conduct : Conduct R s j run c g

theorem Relayed.doing (h : Relayed R s none) (hj : s.runs[j]? = some run)
    (hrest : run.rest = .call o k) : ∃ c g, Doing R s j run o k c g := by
  obtain ⟨c, hc, g, hg⟩ := h.conduct j run hj (by simp)
  exact ⟨c, g, h, hj, hrest, hc, hg⟩

theorem Doing.follows (h : Doing R s j run o k c g) :
    g.allows o ∧ ∀ r, (k r).Follows relay (g.next o r) := by
  have hfollows := h.conduct.follows
  rw [h.atCall] at hfollows
  exact hfollows

theorem Doing.holding (h : Doing R s j run o k c g) (hl : inHand g.stage run.act = some l) :
    ∃ i e b fd n, Holding s run l i e b fd n ∧ ServerSide R g.stage run.act (b.conns n) := by
  have hlease := h.conduct.lease
  unfold LeaseSide at hlease
  rw [hl] at hlease
  obtain ⟨i, e, hticket, hpool, b, fd, hb, hheld, hfd, hP⟩ := hlease
  obtain ⟨n, hn, -⟩ := (h.relayed.kept i b hb).table_owned (held_owned hheld)
  exact ⟨i, e, b, fd, n, ⟨hticket, hpool, hb, hheld, hfd, hn⟩, hP n hn⟩

/-- A run that has no connection in hand has none after a step that gives it none. -/
theorem Doing.leaseSide_none (h : Doing R s j run o k c g) (hnone : inHand g.stage run.act = none)
    (hnone' : inHand st act = none) : LeaseSide R s₁ run st act := by
  unfold LeaseSide
  rw [hnone']
  exact h.conduct.ticket_eq_none hnone

/-- The client is behind the run's descriptor. -/
theorem Doing.peerFile_client (h : Doing R s j run o k c g) (hopen : g.isOpen = true) {peer : Peer}
    (hpeer : peer = .client ∨ peer = .clientTls) : s.peerFile run peer = some (.client j) := by
  have hfile := h.conduct.isOpen hopen
  rcases hpeer with rfl | rfl
  · exact hfile
  · exact hfile

/-- A claim that the run had is not another run's. -/
theorem Doing.claim_ne (h : Doing R s j run o k c g) {t : Nat × Nat} (ht : run.claim = some t)
    {j' : Nat} {r : Run} (hj' : s.runs[j']? = some r) (hne : j' ≠ j) : r.claim ≠ some t :=
  fun ht' => hne (h.relayed.claims j' j r run t hj' h.atRun ht' ht)

/-- Only `inc_completed` counts a completed request, and it stands after the whole
exchange. -/
theorem Doing.completed (h : Doing R s j run o k c g) (r : o.Ret)
    (hpos : 0 < (run.tally.count o).completed) : (g.next o r).stage = .ended true := by
  have hallow := h.follows.1
  by_cases ho : o = .incCompleted
  · subst ho
    exact hallow
  · apply Phase.stage_next_ended hallow
    apply h.conduct.completed
    cases o with
    | incCompleted => exact absurd rfl ho
    | incInFlight | decInFlight | incErrored | acceptHandshake | readMessage | writeMessage
    | replyErrorPlain | replyErrorTls | poolBorrow | poolRelease | setBorrow | setRelease
    | safeClose | closeStream => exact hpos

/-- The call returns. -/
theorem Doing.goOn (h : Doing R s j run o k c g) (hs₁ : Relayed R s₁ (some j))
    (hruns : s₁.runs = s.runs) (hc' : s₁.clients[j]? = some c') (r : o.Ret)
    (hopen : (g.next o r).isOpen = true → s₁.table run.fd = some (.client j))
    (hclient : ClientSide R c' (g.next o r).stage .idle)
    (hlease : LeaseSide R s₁ run (g.next o r).stage .idle) :
    Relayed R (s₁.setRun j (run.goOn o (k r))) none := by
  have hj : s₁.runs[j]? = some run := hruns ▸ h.atRun
  refine hs₁.setRun hj hc'
    ⟨h.follows.2 r, hopen, hclient, h.completed r, hlease, by simp [Run.goOn]⟩
    (fun _ _ _ _ _ _ ht => ht) ?_
  intro t ht j' r' hj' hne
  rw [hruns] at hj'
  exact h.claim_ne (h.conduct.claim_eq_ticket ht) hj' hne

/-- The call goes on. -/
theorem Doing.turn (h : Doing R s j run o k c g) (hs₁ : Relayed R s₁ (some j))
    (hruns : s₁.runs = s.runs) (hc' : s₁.clients[j]? = some c') (hact : ∀ i e, act ≠ .borrowing i e)
    (hopen : g.isOpen = true → s₁.table run.fd = some (.client j))
    (hclient : ClientSide R c' g.stage act) (hlease : LeaseSide R s₁ run g.stage act) :
    Relayed R (s₁.setRun j { run with act := act }) none := by
  have hj : s₁.runs[j]? = some run := hruns ▸ h.atRun
  refine hs₁.setRun hj hc'
    ⟨h.conduct.follows, hopen, hclient, h.conduct.completed, hlease, ?_⟩
    (fun _ _ _ _ _ _ ht => ht) ?_
  · intro i e hborrow
    exact absurd hborrow (hact i e)
  · intro t ht j' r' hj' hne
    rw [hruns] at hj'
    have hticket : run.ticket = some t := by
      unfold Run.claim at ht
      split at ht
      next i e hborrow => exact absurd hborrow (hact i e)
      next => exact ht
    exact h.claim_ne (h.conduct.claim_eq_ticket hticket) hj' hne

/-- The call returns without having touched anything. -/
theorem Doing.returns (h : Doing R s j run o k c g) (r : o.Ret)
    (hclient : ClientSide R c (g.next o r).stage .idle)
    (hlease : LeaseSide R s run (g.next o r).stage .idle) :
    Relayed R (s.setRun j (run.goOn o (k r))) none :=
  h.goOn (h.relayed.weaken _) rfl h.atClient r
    (fun hopen => h.conduct.isOpen (Phase.isOpen_of_next hopen)) hclient hlease

/-- The call begins with a read or a write. -/
theorem Doing.starts (h : Doing R s j run o k c g) (hact : ∀ i e, act ≠ .borrowing i e)
    (hclient : ClientSide R c g.stage act) (hlease : LeaseSide R s run g.stage act) :
    Relayed R (s.setRun j { run with act := act }) none :=
  h.turn (h.relayed.weaken _) rfl h.atClient hact h.conduct.isOpen hclient hlease

/-! ## A new client -/

/-- A run at its start. -/
theorem conduct_start {fd : Nat} (overload : Overload) (opts : HandlerOptions)
    (hfd : s.table fd = some (.client j)) : Conduct R s j (overload.run opts fd) {} {} := by
  cases overload with
  | pool i =>
      exact ⟨handleOnePool_relays opts, fun _ => hfd, ⟨rfl, rfl⟩, by simp [Overload.run], rfl,
        by simp [Overload.run]⟩
  | set =>
      exact ⟨handleOneSet_relays opts, fun _ => hfd, ⟨rfl, rfl⟩, by simp [Overload.run], rfl,
        by simp [Overload.run]⟩

theorem claim_start (overload : Overload) (opts : HandlerOptions) (fd : Nat) :
    (overload.run opts fd).claim = none := by
  cases overload <;> rfl

/-- A run without a connection joins the others. -/
theorem Relayed.addRun (h : Relayed R s none) {c : Client} {g : Phase}
    (hg : Conduct R s s.clients.length run c g) (hclaim : run.claim = none) :
    Relayed R { s with clients := s.clients ++ [c], runs := s.runs ++ [run] } none := by
  have hruns : ∀ {j : Nat} {r : Run}, s.runs[j]? = some r → (s.runs ++ [run])[j]? = some r :=
    fun hj => (List.getElem?_append_left (lt_of_getElem? hj)).trans hj
  refine ⟨?_, ?_, ?_, ?_⟩
  · intro i b hb
    refine (h.kept i b hb).frame (fun _ _ => Iff.rfl) ?_
    rintro e - - ⟨j, r, hj, ht⟩
    exact ⟨j, r, hruns hj, ht⟩
  · intro j r hj _
    rcases getElem?_append_single hj with hj | ⟨rfl, rfl⟩
    · obtain ⟨c', hc', g', hg'⟩ := h.conduct j r hj (by simp)
      refine ⟨c', (List.getElem?_append_left (lt_of_getElem? hc')).trans hc', g', ?_⟩
      exact hg'.frame id (fun _ _ _ _ hlent => hlent) (fun _ _ hcaller => hcaller)
    · rw [← h.length_eq]
      refine ⟨c, by simp, g, ?_⟩
      exact hg.frame id (fun _ _ _ _ hlent => hlent) (fun _ _ hcaller => hcaller)
  · intro j₁ j₂ r₁ r₂ t h₁ h₂ ht₁ ht₂
    rcases getElem?_append_single h₁ with h₁ | ⟨-, rfl⟩
    · rcases getElem?_append_single h₂ with h₂ | ⟨-, rfl⟩
      · exact h.claims j₁ j₂ r₁ r₂ t h₁ h₂ ht₁ ht₂
      · rw [hclaim] at ht₂
        cases ht₂
    · rw [hclaim] at ht₁
      cases ht₁
  · simp [h.length_eq]

/-- A client is accepted. -/
theorem Relayed.accept (h : Relayed R s none) {fd : Nat} (overload : Overload)
    (opts : HandlerOptions) (hfree : s.table fd = none) :
    Relayed R { s with
      table := Function.update s.table fd (some (.client s.clients.length))
      clients := s.clients ++ [{}]
      runs := s.runs ++ [overload.run opts fd] } none := by
  have hopen : Relayed R { s with
      table := Function.update s.table fd (some (.client s.clients.length)) } none :=
    h.setFile (by simp [hfree]) (by simp) (by simp [hfree])
  exact hopen.addRun (conduct_start overload opts (Function.update_self ..))
    (claim_start overload opts fd)

/-! ## Counters and the client's descriptor -/

theorem Relayed.count (h : Relayed R s none) (hj : s.runs[j]? = some run)
    (hrest : run.rest = .call o k) (hact : run.act = .idle) (ho : isCounter o = true) (r : o.Ret) :
    Relayed R (s.setRun j (run.goOn o (k r))) none := by
  obtain ⟨c, g, hdoing⟩ := h.doing hj hrest
  have hnext : g.next o r = g := by
    cases o with
    | incInFlight | decInFlight | incCompleted | incErrored => rfl
    | acceptHandshake | readMessage | writeMessage | replyErrorPlain | replyErrorTls | poolBorrow
    | poolRelease | setBorrow | setRelease | safeClose | closeStream => cases ho
  have hclient := hdoing.conduct.client
  have hlease := hdoing.conduct.lease
  rw [hact] at hclient hlease
  refine hdoing.returns r ?_ ?_
  · rwa [hnext]
  · rwa [hnext]

/-- The descriptor of an open client is closed. -/
theorem Doing.closeFd (h : Doing R s j run o k c g) (hopen : g.isOpen = true) :
    Relayed R (s.closeFd run.fd) (some j) := by
  have hfile := h.conduct.isOpen hopen
  refine h.relayed.setFile (by simp [hfile]) (by simp) ?_
  intro j' hne heq
  rw [hfile] at heq
  cases heq
  exact hne rfl

theorem Relayed.close (h : Relayed R s none) (hj : s.runs[j]? = some run)
    (hrest : run.rest = .call o k) (hact : run.act = .idle) (ho : closesClient o = true)
    (r : o.Ret) : Relayed R ((s.closeFd run.fd).setRun j (run.goOn o (k r))) none := by
  obtain ⟨c, g, hdoing⟩ := h.doing hj hrest
  have hclose : g.isOpen = true ∧ g.next o r = { g with isOpen := false } := by
    have hallow := hdoing.follows.1
    cases o with
    | safeClose | closeStream => exact ⟨hallow, rfl⟩
    | incInFlight | decInFlight | incCompleted | incErrored | acceptHandshake | readMessage
    | writeMessage | replyErrorPlain | replyErrorTls | poolBorrow | poolRelease | setBorrow
    | setRelease => cases ho
  have hclient := hdoing.conduct.client
  have hlease := hdoing.conduct.lease
  rw [hact] at hclient hlease
  refine hdoing.goOn (hdoing.closeFd hclose.1) rfl hdoing.atClient r ?_ ?_ ?_
  · rw [hclose.2]
    intro hopen
    cases hopen
  · rwa [hclose.2]
  · rw [hclose.2]
    exact hlease.closeFd run.fd

theorem Relayed.handshake (h : Relayed R s none) {t : Int} {k : Bool → Code Unit}
    (hj : s.runs[j]? = some run) (hrest : run.rest = .call (.acceptHandshake t) k)
    (hact : run.act = .idle) :
    Relayed R (s.setRun j (run.goOn (.acceptHandshake t) (k true))) none := by
  obtain ⟨c, g, hdoing⟩ := h.doing hj hrest
  have hclient := hdoing.conduct.client
  have hlease := hdoing.conduct.lease
  rw [hact] at hclient hlease
  exact hdoing.returns true hclient hlease

theorem Relayed.handshakeFailed (h : Relayed R s none) {t : Int} {k : Bool → Code Unit}
    (hj : s.runs[j]? = some run) (hrest : run.rest = .call (.acceptHandshake t) k)
    (hact : run.act = .idle) :
    Relayed R ((s.closeFd run.fd).setRun j (run.goOn (.acceptHandshake t) (k false))) none := by
  obtain ⟨c, g, hdoing⟩ := h.doing hj hrest
  obtain ⟨hopen, hst⟩ := hdoing.follows.1
  refine hdoing.goOn (hdoing.closeFd hopen) rfl hdoing.atClient false (fun hopen => by cases hopen)
    hdoing.conduct.client.answered ?_
  exact hdoing.leaseSide_none (by rw [hst, hact]; rfl) rfl

/-! ## Borrowing -/

/-- The run enters `borrow` of pool `i`, under a new entry. -/
theorem Relayed.borrow (h : Relayed R s none) (hj : s.runs[j]? = some run)
    (hrest : run.rest = .call o k) (hact : run.act = .idle) (ho : BorrowsFrom run i o)
    (hb : s.backends[i]? = some b) (hs₁ : s.poolStep i .borrow = some s₁) :
    Relayed R (s₁.setRun j { run with act := .borrowing i b.pool.callers.length }) none := by
  obtain ⟨b', v, hb', hstep, rfl⟩ := poolStep_cases hs₁
  rw [hb, Option.some.injEq] at hb'
  subst hb'
  have hafter := h.pool hb rfl hstep
  have hrun : (s.putPool i b v).runs[j]? = some run := hj
  obtain ⟨c, g, hdoing⟩ := hafter.doing hrun hrest
  have hstage : ∃ q, g.stage = .request q := by
    have hallow := hdoing.follows.1
    cases o with
    | poolBorrow | setBorrow => exact hallow
    | incInFlight | decInFlight | incCompleted | incErrored | acceptHandshake | readMessage
    | writeMessage | replyErrorPlain | replyErrorTls | poolRelease | setRelease | safeClose
    | closeStream => cases ho
  obtain ⟨q, hst⟩ := hstage
  have hentry : ((s.putPool i b v).caller i b.pool.callers.length).isSome = true := by
    cases hstep with
    | borrow => simp [State.caller, State.putPool, State.view, getElem?_set_eq _ hb]
  have hclient := hdoing.conduct.client
  refine (hafter.weaken _).setRun hrun hdoing.atClient
    ⟨hdoing.conduct.follows, hdoing.conduct.isOpen, ?_, hdoing.conduct.completed, ?_, ?_⟩
    (fun _ _ _ _ _ _ ht => ht) ?_
  · rw [hst] at hclient ⊢
    exact hclient
  · exact hdoing.leaseSide_none (by rw [hst, hact]; rfl) (by rw [hst]; rfl)
  · intro i' e' hborrow
    cases hborrow
    refine ⟨⟨q, hst⟩, hentry, ?_⟩
    intro k' hpool
    have hpool : run.rest = .call .poolBorrow k' := hpool
    rw [hrest] at hpool
    cases hpool
    exact ho
  · intro t ht j' r hj' hne hclaim
    cases ht
    obtain ⟨c', -, g', hg'⟩ := h.conduct j' r hj' (by simp)
    have hold := hg'.caller_of_claim hclaim
    simp [State.caller, hb] at hold

/-- A `borrow` returns no connection. -/
theorem Doing.notBorrowed (h : Doing R s j run o k c g) (hact : inHand g.stage run.act = none)
    (r : o.Ret) (hnext : (g.next o r).stage = .ended false) :
    Relayed R (s.setRun j (run.goOn o (k r))) none := by
  refine h.returns r ?_ ?_
  · rw [hnext]
    exact h.conduct.client.answered
  · exact h.leaseSide_none hact (by rw [hnext]; rfl)

theorem Relayed.noPools (h : Relayed R s none) {k : Handle → Code Unit}
    (hj : s.runs[j]? = some run) (hrest : run.rest = .call .setBorrow k) (hact : run.act = .idle) :
    Relayed R (s.setRun j (run.goOn .setBorrow (k { fd := -1, poolIndex := 0 }))) none := by
  obtain ⟨c, g, hdoing⟩ := h.doing hj hrest
  obtain ⟨q, hst⟩ := hdoing.follows.1
  refine hdoing.notBorrowed (by rw [hst, hact]; rfl) _ ?_
  show g.stage.borrow _ = _
  rw [hst]
  rfl

theorem Relayed.borrowFailed (h : Relayed R s none) (hj : s.runs[j]? = some run)
    (hrest : run.rest = .call o k) (hact : run.act = .borrowing i e) {r : o.Ret}
    (hr : borrowed i o none = some r) : Relayed R (s.setRun j (run.goOn o (k r))) none := by
  obtain ⟨c, g, hdoing⟩ := h.doing hj hrest
  obtain ⟨⟨q, hst⟩, -⟩ := hdoing.conduct.borrowing i e hact
  refine hdoing.notBorrowed (by rw [hst, hact]; rfl) r ?_
  cases o with
  | poolBorrow | setBorrow =>
      cases hr
      show g.stage.borrow _ = _
      rw [hst]
      rfl
  | incInFlight | decInFlight | incCompleted | incErrored | acceptHandshake | readMessage
  | writeMessage | replyErrorPlain | replyErrorTls | poolRelease | setRelease | safeClose
  | closeStream => cases hr

theorem Stage.borrow_ok {q : List UInt8} (h : l.fd = fd) :
    Stage.borrow (.request q) l = .lent l q :=
  if_neg (by omega)

/-- What a `borrow` of pool `i` returned. -/
theorem next_borrowed {q : List UInt8} (hst : g.stage = .request q) {r : o.Ret}
    (hr : borrowed i o (some fd) = some r) (hrest : run.rest = .call o k)
    (hpool : ∀ k, run.rest = .call .poolBorrow k → i = run.pool) :
    ∃ l : Lease, l.fd = fd ∧ l.From run.pool i ∧ g.next o r = { g with stage := .lent l q } := by
  cases o with
  | poolBorrow =>
      cases hr
      refine ⟨.pool fd, rfl, hpool k hrest, ?_⟩
      simp only [Phase.next, hst]
      rw [Stage.borrow_ok rfl]
  | setBorrow =>
      cases hr
      refine ⟨.set { fd := fd, poolIndex := i }, rfl, rfl, ?_⟩
      simp only [Phase.next, hst]
      rw [Stage.borrow_ok rfl]
  | incInFlight | decInFlight | incCompleted | incErrored | acceptHandshake | readMessage
  | writeMessage | replyErrorPlain | replyErrorTls | poolRelease | setRelease | safeClose
  | closeStream => cases hr

/-- A `borrow` returns a connection.  It is settled: nobody else has it in hand, and
what the pool lends is. -/
theorem Relayed.borrowed (h : Relayed R s none) (hj : s.runs[j]? = some run)
    (hrest : run.rest = .call o k) (hact : run.act = .borrowing i e)
    (hheld : s.caller i e = some (.held fd)) {r : o.Ret}
    (hr : Relay.borrowed i o (some fd) = some r) :
    Relayed R (s.setRun j { run.goOn o (k r) with ticket := some (i, e) }) none := by
  obtain ⟨c, g, hdoing⟩ := h.doing hj hrest
  obtain ⟨⟨q, hst⟩, -, hpool⟩ := hdoing.conduct.borrowing i e hact
  obtain ⟨l, hfd, hfrom, hnext⟩ := next_borrowed hst hr hrest hpool
  obtain ⟨b, hb, hheld⟩ := Option.bind_eq_some_iff.mp hheld
  have hclaim : run.claim = some (i, e) := by simp [Run.claim, hact]
  have hticket : run.ticket = none := hdoing.conduct.ticket_eq_none (by rw [hst, hact]; rfl)
  have hsettled : ∀ n, s.table fd = some (.conn i n) → (b.conns n).Settled R := by
    rcases (h.kept i b hb).standing.callers e _ hheld with ⟨j', r', hj', ht'⟩ | hclean
    · exfalso
      obtain ⟨c', -, g', hg'⟩ := h.conduct j' r' hj' (by simp)
      have hsame : j' = j := h.claims j' j r' run _ hj' hj (hg'.claim_eq_ticket ht') hclaim
      subst hsame
      rw [hj, Option.some.injEq] at hj'
      subst hj'
      rw [hticket] at ht'
      cases ht'
    · exact hclean
  have hclient := hdoing.conduct.client
  rw [hst] at hclient
  refine (h.weaken _).setRun hj hdoing.atClient
    ⟨hdoing.follows.2 r, ?_, ?_, hdoing.completed r, ?_, by simp [Run.goOn]⟩ ?_ ?_
  · intro hopen
    exact hdoing.conduct.isOpen (Phase.isOpen_of_next hopen)
  · rw [hnext]
    exact hclient
  · rw [hnext]
    exact ⟨i, e, rfl, hfrom, b, fd, hb, hheld, hfd.symm, hsettled⟩
  · intro k' e' fd' b' _ _ ht
    rw [hticket] at ht
    cases ht
  · intro t ht j' r' hj' hne
    cases ht
    exact hdoing.claim_ne hclaim hj' hne

/-! ## Releasing -/

/-- What a call of `release` gives back. -/
theorem Phase.releases (hallow : g.allows o) {fd : Int} {ok : Bool}
    (ho : Relay.releases run o = some (i, fd, ok)) :
    ∃ l : Lease, l.fd = fd ∧ (∀ i', l.From run.pool i' → i' = i) ∧ g.stage.Releases l ok := by
  cases o with
  | poolRelease fd ok =>
      cases ho
      exact ⟨.pool fd, rfl, fun _ hfrom => hfrom, hallow⟩
  | setRelease handle ok =>
      cases ho
      exact ⟨.set handle, rfl, fun _ hfrom => hfrom, hallow⟩
  | incInFlight | decInFlight | incCompleted | incErrored | acceptHandshake | readMessage
  | writeMessage | replyErrorPlain | replyErrorTls | poolBorrow | setBorrow | safeClose
  | closeStream => cases ho

theorem Stage.Releases.lease_eq {ok : Bool} (h : st.Releases l ok) : st.lease = some l := by
  rcases h with ⟨-, whole, rfl⟩ | ⟨-, rfl⟩
  · rfl
  · rfl

/-- A run that releases has something to release. -/
theorem Relayed.releaseNothing (h : Relayed R s none) (hj : s.runs[j]? = some run)
    (hrest : run.rest = .call o k) (hact : run.act = .idle) {fd : Int} {ok : Bool}
    (ho : releases run o = some (i, fd, ok)) : ¬ (fd < 0 ∨ s.backends.length ≤ i) := by
  obtain ⟨c, g, hdoing⟩ := h.doing hj hrest
  obtain ⟨l, rfl, hfrom, hreleases⟩ := Phase.releases hdoing.follows.1 ho
  obtain ⟨i', e, b, fd, n, hhold, -⟩ := hdoing.holding (l := l) (by
    rw [hact]
    exact hreleases.lease_eq)
  obtain rfl := hfrom i' hhold.pool
  have hlt := lt_of_getElem? hhold.backend
  have hfd := hhold.fd_eq
  omega

/-- The entry of the busy run turns to `release`.  A connection that goes back with
`ok` is settled. -/
theorem Holding.release (h : Holding s run l i e b fd n) (hs : Relayed R s none)
    (hj : s.runs[j]? = some run) {ok : Bool} (hok : ok = true → (b.conns n).Settled R) :
    Relayed R { s with
      backends := s.backends.set i { b with
        pool := { b.pool with callers := b.pool.callers.set e (.releasing fd ok) } } }
      (some j) := by
  have hkept := hs.kept i b h.backend
  have hstep : BackendPool.Step b.opts.normalise (s.view i b) (.release e ok)
      { s.view i b with callers := b.pool.callers.set e (.releasing fd ok) } := .release ok h.held
  refine hs.setBackend h.backend rfl rfl rfl ⟨BackendPool.ledger_step hstep hkept.ledger, ?_⟩
    (fun _ _ _ _ => Iff.rfl) (fun _ _ hj => hj) (by simp) ?_
  · refine BackendPool.Standing.setCaller hkept.standing _ h.held ?_
    intro htrue m hm
    rw [h.file] at hm
    cases hm
    exact hok htrue
  · intro j' run' client g e' fd' hne hj' _ ht' hheld'
    have hentry : e' ≠ e := by
      rintro rfl
      exact hs.ticket_ne hj hj' (fun heq => hne (congrArg some heq.symm)) h.ticket ht' rfl
    refine ⟨?_, fun m hm => ⟨hm, id⟩⟩
    show (b.pool.callers.set e _)[e']? = _
    rw [getElem?_set_eq _ h.held, if_neg hentry, hheld']

theorem Relayed.release (h : Relayed R s none) (hj : s.runs[j]? = some run)
    (hrest : run.rest = .call o k) (hact : run.act = .idle) {fd : Int} {ok : Bool}
    (ho : releases run o = some (i, fd, ok)) (hb : s.backends[i]? = some b)
    (ht : run.ticket = some (i, e)) : Relayed R (s.giveBack j run i b e fd ok) none := by
  obtain ⟨c, g, hdoing⟩ := h.doing hj hrest
  obtain ⟨l, rfl, -, hreleases⟩ := Phase.releases hdoing.follows.1 ho
  obtain ⟨i', e', b', fd', n, hhold, hserver⟩ := hdoing.holding (l := l) (by
    rw [hact]
    exact hreleases.lease_eq)
  obtain ⟨rfl, rfl⟩ : i' = i ∧ e' = e := by simpa [ht, eq_comm] using hhold.ticket
  obtain rfl : b = b' := by simpa [hb] using hhold.backend
  have hgive : s.giveBack j run i' b e' l.fd ok = State.setRun { s with
      backends := s.backends.set i' { b with
        pool := { b.pool with callers := b.pool.callers.set e' (.releasing fd' ok) } } } j
      { run with act := .releasing i' e', ticket := none } := by
    simp only [State.giveBack, State.setRun, ← hhold.fd_eq, Int.toNat_natCast]
  have hok : ok = true → (b.conns n).Settled R := by
    intro htrue
    rcases hreleases with ⟨-, whole, hst⟩ | ⟨hfalse, -⟩
    · rw [hst] at hserver
      exact hserver
    · rw [htrue] at hfalse
      cases hfalse
  have hclient := hdoing.conduct.client
  rw [hgive]
  refine (hhold.release h hj hok).setRun hj hdoing.atClient
    ⟨hdoing.conduct.follows, hdoing.conduct.isOpen, ?_, hdoing.conduct.completed, rfl, by simp⟩
    ?_ ?_
  · rcases hreleases with ⟨-, whole, hst⟩ | ⟨-, hst⟩
    · rw [hst] at hclient ⊢
      exact hclient
    · rw [hst] at hclient ⊢
      exact hclient
  · intro k' e'' fd'' b'' hb'' hheld'' ht''
    exfalso
    rw [ht] at ht''
    cases ht''
    have hb'' : (s.backends.set i' _)[i']? = some b'' := hb''
    rw [getElem?_set_eq _ hb, if_pos rfl] at hb''
    cases hb''
    have hheld'' : (b.pool.callers.set e' _)[e']? = some (.held fd'') := hheld''
    rw [getElem?_set_eq _ hhold.held, if_pos rfl] at hheld''
    cases hheld''
  · intro t ht'
    cases ht'

theorem Relayed.released (h : Relayed R s none) (hj : s.runs[j]? = some run)
    (hrest : run.rest = .call o k) (hact : run.act = .releasing i e) {r : o.Ret}
    (hr : Relay.released o = some r) : Relayed R (s.setRun j (run.goOn o (k r))) none := by
  obtain ⟨c, g, hdoing⟩ := h.doing hj hrest
  have hrelease : ∃ l ok, g.stage.Releases l ok ∧ (g.next o r).stage = g.stage.release := by
    have hallow := hdoing.follows.1
    cases o with
    | poolRelease | setRelease => exact ⟨_, _, hallow, rfl⟩
    | incInFlight | decInFlight | incCompleted | incErrored | acceptHandshake | readMessage
    | writeMessage | replyErrorPlain | replyErrorTls | poolBorrow | setBorrow | safeClose
    | closeStream => cases hr
  obtain ⟨l, ok, hreleases, hnext⟩ := hrelease
  have hended : ∃ whole, (g.next o r).stage = .ended whole ∧ Answered R c whole := by
    have hclient := hdoing.conduct.client
    rcases hreleases with ⟨-, whole, hst⟩ | ⟨-, hst⟩
    · rw [hst] at hnext hclient
      exact ⟨whole, hnext, hclient⟩
    · rw [hst] at hnext hclient
      exact ⟨false, hnext, hclient⟩
  obtain ⟨whole, hnext, hanswered⟩ := hended
  refine hdoing.returns r ?_ ?_
  · rw [hnext]
    exact hanswered
  · exact hdoing.leaseSide_none (by rw [hact]; rfl) (by rw [hnext]; rfl)

end InferenceRouter.Relay
