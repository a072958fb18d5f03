import InferenceRouter.Handler.Execution

/-!
# The handler returns

`handle_one` has no loop of its own.  It returns if every call that it makes returns, and
a run makes each kind of call at most once.  `World.Answered` says that the next call of
each kind returns, `Lender.Lends` that a connection can be borrowed and given back.

Each call uses up one answer and leaves the other lists of the world alone, so what is
known about them stays known.
-/

namespace InferenceRouter.Handler

open Interleaving Connection

/-! ## Answers -/

/-- The next read of a request returns. -/
def Reads (peer : Peer) (maxPayload : Nat) (timeoutMs : Int) (reads : List ClientRead) : Prop :=
  ∃ c rest, reads = c :: rest ∧ c.peer = peer ∧
    (Reading.start.loop maxPayload (c.outcomes timeoutMs)).isSome

/-- The next write to the client returns. -/
def Writes (peer : Peer) (timeoutMs : Int) (writes : List ClientWrite) : Prop :=
  ∃ c rest, writes = c :: rest ∧ c.peer = peer ∧
    ∀ data, (writeCall data (c.outcomes timeoutMs)).isSome

def BackendReads (maxPayload : Nat) (timeoutMs : Int) (reads : List (List ReadTurn)) : Prop :=
  ∃ turns rest, reads = turns :: rest ∧
    (Reading.start.loop maxPayload (turns.map (ReadTurn.outcome timeoutMs))).isSome

def BackendWrites (timeoutMs : Int) (writes : List (List WriteTurn)) : Prop :=
  ∃ turns rest, writes = turns :: rest ∧
    ∀ data, (writeCall data (turns.map (WriteTurn.outcome timeoutMs))).isSome

/-- The transport that the options select. -/
def HandlerOptions.transport (opts : HandlerOptions) : Transport :=
  if opts.serverTls = true then .tls else .plain

variable {β : Type}

/-- The next call of each kind returns. -/
structure World.Answered (opts : HandlerOptions) (w : World β) : Prop where
  handshakes : opts.serverTls = true →
    ∃ h rest, w.handshakes = h :: rest ∧ (h.calls opts.tlsHandshakeTimeoutMs).isSome
  reads : Reads opts.transport.peer opts.maxPayload opts.clientIoTimeoutMs w.reads
  writes : Writes opts.transport.peer opts.clientIoTimeoutMs w.writes
  backendReads : BackendReads opts.maxPayload opts.backendIoTimeoutMs w.backendReads
  backendWrites : BackendWrites opts.backendIoTimeoutMs w.backendWrites

/-- A connection can be borrowed, and given back as `f` of the handle. -/
def Lender.Lends (L : Lender β) (f : Handle → Handle) (b : β) : Prop :=
  ∃ h b', L.borrow b = some (h, b') ∧ (0 ≤ h.fd → ∀ ok, (L.release b' (f h) ok).isSome)

/-! ## One call -/

section Calls

variable {L : Lender β} {w : World β} {peer : Peer} {maxPayload : Nat} {timeoutMs : Int}

theorem World.readMessage_returns (h : Reads peer maxPayload timeoutMs w.reads) :
    ∃ result acts rest, w.readMessage peer maxPayload timeoutMs =
      some (result, acts, { w with reads := rest }) := by
  obtain ⟨c, rest, hreads, rfl, hloop⟩ := h
  obtain ⟨⟨result, pieces⟩, hloop⟩ := Option.isSome_iff_exists.mp hloop
  refine ⟨result, readActs .client result pieces, rest, ?_⟩
  cases c with
  | plain turns =>
      simp only [ClientRead.outcomes] at hloop
      simp only [World.readMessage, ClientRead.peer, hreads, hloop]
  | tls turns =>
      simp only [ClientRead.outcomes] at hloop
      simp only [World.readMessage, ClientRead.peer, hreads, hloop]

theorem World.writeMessage_returns (h : Writes peer timeoutMs w.writes) (data : List UInt8) :
    ∃ status acts rest, w.writeMessage peer data timeoutMs =
      some (status, acts, { w with writes := rest }) := by
  obtain ⟨c, rest, hwrites, rfl, hcall⟩ := h
  obtain ⟨⟨status, pieces⟩, hcall⟩ := Option.isSome_iff_exists.mp (hcall data)
  refine ⟨status, writeActs .client data status pieces, rest, ?_⟩
  cases c with
  | plain turns =>
      simp only [ClientWrite.outcomes] at hcall
      simp only [World.writeMessage, ClientWrite.peer, hwrites, hcall]
  | tls turns =>
      simp only [ClientWrite.outcomes] at hcall
      simp only [World.writeMessage, ClientWrite.peer, hwrites, hcall]

theorem World.backendRead_returns (h : BackendReads maxPayload timeoutMs w.backendReads)
    (fd : Int) :
    ∃ result acts rest, w.readMessage (.backend fd) maxPayload timeoutMs =
      some (result, acts, { w with backendReads := rest }) := by
  obtain ⟨turns, rest, hreads, hloop⟩ := h
  obtain ⟨⟨result, pieces⟩, hloop⟩ := Option.isSome_iff_exists.mp hloop
  refine ⟨result, readActs (.backend fd) result pieces, rest, ?_⟩
  simp only [World.readMessage, hreads, hloop]

theorem World.backendWrite_returns (h : BackendWrites timeoutMs w.backendWrites) (fd : Int)
    (data : List UInt8) :
    ∃ status acts rest, w.writeMessage (.backend fd) data timeoutMs =
      some (status, acts, { w with backendWrites := rest }) := by
  obtain ⟨turns, rest, hwrites, hcall⟩ := h
  obtain ⟨⟨status, pieces⟩, hcall⟩ := Option.isSome_iff_exists.mp (hcall data)
  refine ⟨status, writeActs (.backend fd) data status pieces, rest, ?_⟩
  simp only [World.writeMessage, hwrites, hcall]

theorem World.replyError_returns (h : Writes peer timeoutMs w.writes) (msg : String) :
    ∃ acts rest, w.replyError peer msg timeoutMs = some ((), acts, { w with writes := rest }) := by
  obtain ⟨status, acts, rest, hwrite⟩ := World.writeMessage_returns h msg.toUTF8.toList
  exact ⟨acts, rest, by simp only [World.replyError, hwrite]⟩

/-- The calls of the transport return. -/
structure Transport.Live (L : Lender β) (t : Transport) : Prop where
  reply : ∀ (w : World β) timeoutMs msg, Writes t.peer timeoutMs w.writes →
    ∃ acts rest, (t.reply msg timeoutMs).run (World.answer L) w =
      some ((), acts, { w with writes := rest })
  close : ∀ w : World β, ∃ acts, t.close.run (World.answer L) w = some ((), acts, w)

theorem Transport.plain_live (L : Lender β) : Transport.plain.Live L where
  reply w timeoutMs msg h := by
    simp only [Transport.plain, replyErrorPlain, Prog.run_perform]
    exact World.replyError_returns h msg
  close w := ⟨[.closed], by simp only [Transport.plain, safeClose, Prog.run_perform]; rfl⟩

theorem Transport.tls_live (L : Lender β) : Transport.tls.Live L where
  reply w timeoutMs msg h := by
    simp only [Transport.tls, replyErrorTls, Prog.run_perform]
    exact World.replyError_returns h msg
  close w := ⟨[.tls .shutdown, .tls .free, .closed], by
    simp only [Transport.tls, closeStream, Prog.run_perform]
    rfl⟩

/-- The calls of the lending return, from the state `b` on. -/
def Lending.Live (L : Lender β) (l : Lending) (b : β) : Prop :=
  ∃ h b', (∀ w : World β, w.lender = b → ∃ acts, l.borrow.run (World.answer L) w =
      some (h, acts, { w with lender := b' })) ∧
    (0 ≤ h.fd → ∀ ok (w : World β), w.lender = b' → ∃ acts b'',
      (l.release h ok).run (World.answer L) w = some ((), acts, { w with lender := b'' }))

theorem World.release_returns {h : Handle} {ok : Bool} (hrel : (L.release w.lender h ok).isSome) :
    ∃ acts b, w.release L h ok = some ((), acts, { w with lender := b }) := by
  obtain ⟨b, hrel⟩ := Option.isSome_iff_exists.mp hrel
  exact ⟨[.released h ok], b, by simp only [World.release, hrel]⟩

theorem Lending.pool_live {b : β} (h : L.Lends (fun h => { fd := h.fd }) b) :
    Lending.pool.Live L b := by
  obtain ⟨h, b', hborrow, hrelease⟩ := h
  refine ⟨{ fd := h.fd }, b', ?_, ?_⟩
  · rintro w rfl
    refine ⟨[.borrowed { fd := h.fd }], Prog.run_bind_iff.mpr
      ⟨h.fd, [.borrowed { fd := h.fd }], { w with lender := b' }, [], ?_, rfl, rfl⟩⟩
    simp only [poolBorrow, Prog.run_perform, World.answer, World.poolBorrow, hborrow]
  · rintro hfd ok w rfl
    simp only [Lending.pool, poolRelease, Prog.run_perform]
    exact World.release_returns (hrelease hfd ok)

theorem Lending.set_live {b : β} (h : L.Lends id b) : Lending.set.Live L b := by
  obtain ⟨h, b', hborrow, hrelease⟩ := h
  refine ⟨h, b', ?_, ?_⟩
  · rintro w rfl
    refine ⟨[.borrowed h], ?_⟩
    simp only [Lending.set, setBorrow, Prog.run_perform, World.answer, World.setBorrow, hborrow]
  · rintro hfd ok w rfl
    simp only [Lending.set, setRelease, Prog.run_perform]
    exact World.release_returns (hrelease hfd ok)

end Calls

/-! ## Runs -/

section Runs

variable {L : Lender β} {w : World β} {t : Transport} {l : Lending} {opts : HandlerOptions}

/-- The end of every body. -/
theorem Transport.Live.leave_returns (ht : t.Live L) {count : Code Unit} {acts : List Act}
    (hcount : ∀ w : World β, count.run (World.answer L) w = some ((), acts, w)) (w : World β) :
    (do count; t.close; decInFlight : Code Unit).Returns (World.answer L) w := by
  obtain ⟨acts', hrun⟩ := ht.close w
  exact .bind (hcount w) (.bind hrun ⟨_, _, _, rfl⟩)

theorem Transport.Live.fail_returns (ht : t.Live L) (w : World β) :
    (fail t).Returns (World.answer L) w :=
  ht.leave_returns (fun w => by rw [incErrored, Prog.run_perform]; rfl) w

theorem exchange_returns (ht : t.Live L) {handle : Handle} (req : List UInt8)
    (hwrites : Writes t.peer opts.clientIoTimeoutMs w.writes)
    (hreads : BackendReads opts.maxPayload opts.backendIoTimeoutMs w.backendReads)
    (hwrite : BackendWrites opts.backendIoTimeoutMs w.backendWrites)
    (hrelease : ∀ ok (w' : World β), w'.lender = w.lender → ∃ acts b,
      (l.release handle ok).run (World.answer L) w' = some ((), acts, { w' with lender := b })) :
    (exchange t l opts handle req).Returns (World.answer L) w := by
  obtain ⟨wr, acts₁, rest₁, hrun₁⟩ := World.backendWrite_returns hwrite handle.fd req
  refine .bind (by rw [writeMessage, Prog.run_perform]; exact hrun₁) ?_
  split
  next =>
    obtain ⟨acts₂, rest₂, hrun₂⟩ := ht.reply { w with backendWrites := rest₁ }
      opts.clientIoTimeoutMs "ERR backend write" hwrites
    obtain ⟨acts₃, b, hrun₃⟩ :=
      hrelease false { w with backendWrites := rest₁, writes := rest₂ } rfl
    exact .bind hrun₂ (.bind hrun₃ (ht.fail_returns _))
  next =>
    obtain ⟨⟨rr, resp⟩, acts₂, rest₂, hrun₂⟩ :=
      @World.backendRead_returns _ { w with backendWrites := rest₁ } _ _ hreads handle.fd
    refine .bind (by rw [readMessage, Prog.run_perform]; exact hrun₂) ?_
    simp only
    split
    next =>
      obtain ⟨acts₃, rest₃, hrun₃⟩ :=
        ht.reply { w with backendWrites := rest₁, backendReads := rest₂ } opts.clientIoTimeoutMs
          "ERR backend read" hwrites
      obtain ⟨acts₄, b, hrun₄⟩ := hrelease false
        { w with backendWrites := rest₁, backendReads := rest₂, writes := rest₃ } rfl
      exact .bind hrun₃ (.bind hrun₄ (ht.fail_returns _))
    next =>
      obtain ⟨cw, acts₃, rest₃, hrun₃⟩ := @World.writeMessage_returns _
        { w with backendWrites := rest₁, backendReads := rest₂ } _ _ hwrites resp
      obtain ⟨acts₄, b, hrun₄⟩ := hrelease true
        { w with backendWrites := rest₁, backendReads := rest₂, writes := rest₃ } rfl
      refine .bind (by rw [writeMessage, Prog.run_perform]; exact hrun₃) (.bind hrun₄ ?_)
      split
      next => exact ht.fail_returns _
      next =>
        exact ht.leave_returns (fun w => by rw [incCompleted, Prog.run_perform]; rfl) _

theorem serve_returns (ht : t.Live L) (hl : l.Live L w.lender)
    (hread : Reads t.peer opts.maxPayload opts.clientIoTimeoutMs w.reads)
    (hwrites : Writes t.peer opts.clientIoTimeoutMs w.writes)
    (hreads : BackendReads opts.maxPayload opts.backendIoTimeoutMs w.backendReads)
    (hwrite : BackendWrites opts.backendIoTimeoutMs w.backendWrites) :
    (serve t l opts).Returns (World.answer L) w := by
  obtain ⟨⟨r, req⟩, acts₁, rest₁, hrun₁⟩ := World.readMessage_returns hread
  refine .bind (by rw [readMessage, Prog.run_perform]; exact hrun₁) ?_
  simp only
  split
  next => exact ht.fail_returns _
  next =>
    obtain ⟨handle, b, hborrow, hrelease⟩ := hl
    obtain ⟨acts₂, hrun₂⟩ := hborrow { w with reads := rest₁ } rfl
    refine .bind hrun₂ ?_
    split
    next =>
      obtain ⟨acts₃, rest₃, hrun₃⟩ := ht.reply { w with reads := rest₁, lender := b }
        opts.clientIoTimeoutMs "ERR backend unavailable" hwrites
      exact .bind hrun₃ (ht.fail_returns _)
    next hfd =>
      exact exchange_returns ht req hwrites hreads hwrite (hrelease (Int.not_lt.mp hfd))

theorem handleOne_returns (hw : w.Answered opts) (hl : l.Live L w.lender) :
    (handleOne l opts).Returns (World.answer L) w := by
  obtain ⟨hshakes, hread, hwrites, hreads, hwrite⟩ := hw
  refine .bind (by rw [incInFlight, Prog.run_perform]; rfl) ?_
  cases htls : opts.serverTls with
  | false =>
      simp only [HandlerOptions.transport, htls, Bool.false_eq_true, if_false] at hread hwrites
      exact serve_returns (Transport.plain_live L) hl hread hwrites hreads hwrite
  | true =>
      simp only [HandlerOptions.transport, htls, if_true] at hread hwrites
      obtain ⟨h, rest, hrest, hcalls⟩ := hshakes htls
      obtain ⟨⟨calls, ok⟩, hcalls⟩ := Option.isSome_iff_exists.mp hcalls
      have hrun : (acceptHandshake opts.tlsHandshakeTimeoutMs).run (World.answer L) w =
          some (ok, calls.map .tls ++ (if ok = true then [] else [.closed]),
            { w with handshakes := rest }) := by
        simp only [acceptHandshake, Prog.run_perform, World.answer, World.acceptHandshake, hrest,
          hcalls]
      refine .bind hrun ?_
      cases ok with
      | false => exact .bind (by rw [incErrored, Prog.run_perform]; rfl) ⟨_, _, _, rfl⟩
      | true => exact serve_returns (Transport.tls_live L) hl hread hwrites hreads hwrite

end Runs

end InferenceRouter.Handler
