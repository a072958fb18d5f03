import InferenceRouter.Relay.Runs

/-!
# Reads and writes of the runs

The turns of `read_message` and `write_message` with the client and with the
borrowed connection.  A request that was read whole is what the client sent, an
answer that was read whole is the one to that request, and the response goes out in
order.  A read or a write that fails ends the exchange, and after it nothing more
is known of the connection.
-/

namespace InferenceRouter.Relay

open Interleaving Connection Handler

variable {R : Service} {s s₁ : State} {i j n : Nat} {b : Backend} {run : Run} {o : Op}
  {k : o.Ret → Code Unit} {c c' : Client} {g : Phase} {l : Lease} {e fd : Nat} {st st' : Stage}
  {act act' : Activity}

/-! ## Reads -/

section Reads

variable {peer : Peer} {maxPayload : Nat} {t : Int} {k : IoStatus × List UInt8 → Code Unit}
  {r r' : Reading} {file : File} {bytes : List UInt8}

theorem Relayed.startRead (h : Relayed R s none) (hj : s.runs[j]? = some run)
    (hrest : run.rest = .call (.readMessage peer maxPayload t) k) (hact : run.act = .idle) :
    Relayed R (s.setRun j { run with act := .reading .start }) none := by
  obtain ⟨c, g, hdoing⟩ := h.doing hj hrest
  have hclient := hdoing.conduct.client
  have hlease := hdoing.conduct.lease
  rcases Phase.reads hdoing.follows.1 with ⟨-, -, hst⟩ | ⟨l, q, -, hst⟩
  · rw [hst, hact] at hclient hlease
    refine hdoing.starts (by simp) ?_ ?_
    · rw [hst]
      exact ⟨hclient.1 ▸ Reading.has_start, hclient.2⟩
    · rw [hst]
      exact hlease
  · rw [hst, hact] at hclient hlease
    refine hdoing.starts (by simp) ?_ ?_
    · rw [hst]
      exact hclient
    · rw [hst]
      exact hlease.imp rfl (fun _ htalks => Stream.Talks.hears htalks)

/-- The client's bytes arrive. -/
theorem recvFrom_client (hc : s.clients[j]? = some c) (h : s.recvFrom bytes (.client j) = some s₁) :
    s₁ = { s with clients := s.clients.set j { c with received := c.received ++ bytes } } := by
  simp only [State.recvFrom, hc] at h
  cases h
  rfl

theorem getElem?_set_client (hc : s.clients[j]? = some c) (c' : Client) :
    (s.clients.set j c')[j]? = some c' := by
  rw [getElem?_set_eq _ hc, if_pos rfl]

theorem Relayed.recvMore (h : Relayed R s none) (hj : s.runs[j]? = some run)
    (hrest : run.rest = .call (.readMessage peer maxPayload t) k) (hact : run.act = .reading r)
    (hfile : s.peerFile run peer = some file) (hneed : bytes.length ≤ r.need)
    (hs₁ : s.recvFrom bytes file = some s₁) (hrecv : r.recv maxPayload bytes = .inl r') :
    Relayed R (s₁.setRun j { run with act := .reading r' }) none := by
  obtain ⟨c, g, hdoing⟩ := h.doing hj hrest
  have hclient := hdoing.conduct.client
  rcases Phase.reads hdoing.follows.1 with ⟨hpeer, hopen, hst⟩ | ⟨l, q, rfl, hst⟩
  · rw [hdoing.peerFile_client hopen hpeer, Option.some.injEq] at hfile
    subst hfile
    rw [recvFrom_client hdoing.atClient hs₁]
    rw [hst, hact] at hclient
    refine hdoing.turn (h.setClient j _) rfl (getElem?_set_client hdoing.atClient _) (by simp)
      hdoing.conduct.isOpen ?_ ?_
    · rw [hst]
      exact ⟨Reading.recv_more hclient.1 hneed hrecv, hclient.2⟩
    · exact hdoing.leaseSide_none (by rw [hst, hact]; rfl) (by rw [hst]; rfl)
  · obtain ⟨i, e, b, fd, n, hhold, hserver⟩ := hdoing.holding (l := l) (by rw [hst, hact]; rfl)
    rw [hhold.peerFile, Option.some.injEq] at hfile
    subst hfile
    obtain ⟨hbytes, rfl⟩ := recvFrom_conn hhold.backend hs₁
    rw [hst, hact] at hclient hserver
    refine hdoing.turn (h.converse hj hhold.backend hhold.ticket hhold.held hhold.file) rfl
      hdoing.atClient (by simp) hdoing.conduct.isOpen ?_ ?_
    · rw [hst]
      exact hclient
    · rw [hst]
      exact hhold.converse rfl (Stream.Hears.recv_more hserver hneed hbytes hrecv)

/-- A read of the run returns.  A request that was read whole is what the client
sent, and an answer that was read whole is the one to the request. -/
theorem Relayed.recvDone (h : Relayed R s none) (hj : s.runs[j]? = some run)
    (hrest : run.rest = .call (.readMessage peer maxPayload t) k) (hact : run.act = .reading r)
    (hfile : s.peerFile run peer = some file) (hneed : bytes.length ≤ r.need)
    (hs₁ : s.recvFrom bytes file = some s₁) {out : IoStatus × List UInt8}
    (hrecv : r.recv maxPayload bytes = .inr out) :
    Relayed R (s₁.setRun j (run.goOn (.readMessage peer maxPayload t) (k out))) none := by
  obtain ⟨c, g, hdoing⟩ := h.doing hj hrest
  have hclient := hdoing.conduct.client
  have hnext : (g.next (.readMessage peer maxPayload t) out).stage = g.stage.read out := rfl
  rcases Phase.reads hdoing.follows.1 with ⟨hpeer, hopen, hst⟩ | ⟨l, q, rfl, hst⟩
  · rw [hdoing.peerFile_client hopen hpeer, Option.some.injEq] at hfile
    subst hfile
    rw [recvFrom_client hdoing.atClient hs₁]
    rw [hst, hact] at hclient
    rw [hst] at hnext
    refine hdoing.goOn (h.setClient j _) rfl (getElem?_set_client hdoing.atClient _) out
      (fun _ => hdoing.conduct.isOpen hopen) ?_ ?_
    · rw [hnext]
      by_cases hout : out.1 = .kOk
      · obtain ⟨status, q⟩ := out
        cases hout
        obtain ⟨hframe, hlt⟩ := Reading.recv_ok hclient.1 hneed hrecv
        exact ⟨hframe, hlt, hclient.2⟩
      · rw [Stage.read_start_fail hout]
        exact Answered.of_silent hclient.2
    · refine hdoing.leaseSide_none (by rw [hst, hact]; rfl) ?_
      rw [hnext]
      exact Stage.lease_read _ _
  · obtain ⟨i, e, b, fd, n, hhold, hserver⟩ := hdoing.holding (l := l) (by rw [hst, hact]; rfl)
    rw [hhold.peerFile, Option.some.injEq] at hfile
    subst hfile
    obtain ⟨hbytes, rfl⟩ := recvFrom_conn hhold.backend hs₁
    rw [hst, hact] at hclient hserver
    rw [hst] at hnext
    -- Both sides of the exchange after the read.
    have hboth : ClientSide R c (Stage.read (.sent l q) out) .idle ∧
        ServerSide R (Stage.read (.sent l q) out) .idle ((b.conns n).recv bytes.length) := by
      by_cases hout : out.1 = .kOk
      · obtain ⟨status, p⟩ := out
        cases hout
        obtain ⟨hp, hsettled⟩ := Stream.Hears.recv_ok hserver hclient.2.1 hneed hbytes hrecv
        exact ⟨⟨hclient.1, hp, hclient.2.2⟩, hsettled⟩
      · rw [Stage.read_sent_fail hout]
        exact ⟨Answered.of_silent hclient.2.2, trivial⟩
    refine hdoing.goOn (h.converse hj hhold.backend hhold.ticket hhold.held hhold.file) rfl
      hdoing.atClient out hdoing.conduct.isOpen ?_ ?_
    · rw [hnext]
      exact hboth.1
    · have hl : inHand (Stage.read (.sent l q) out) .idle = some l := Stage.lease_read _ _
      rw [hnext]
      exact hhold.converse hl hboth.2

theorem Reading.stop_fst (r : Reading) (status : IoStatus) : (r.stop status).1 = status := by
  cases r <;> rfl

/-- A read gives up. -/
theorem Relayed.stopRead (h : Relayed R s none) (hj : s.runs[j]? = some run)
    (hrest : run.rest = .call (.readMessage peer maxPayload t) k) (hact : run.act = .reading r)
    {status : IoStatus} (hstatus : status.givesUp = true) :
    Relayed R (s.setRun j (run.goOn (.readMessage peer maxPayload t) (k (r.stop status))))
      none := by
  obtain ⟨c, g, hdoing⟩ := h.doing hj hrest
  have hclient := hdoing.conduct.client
  have hlease := hdoing.conduct.lease
  have hfail : (r.stop status).1 ≠ .kOk := by
    rw [Reading.stop_fst]
    rintro rfl
    cases hstatus
  have hnext : (g.next (.readMessage peer maxPayload t) (r.stop status)).stage =
      g.stage.read (r.stop status) := rfl
  rcases Phase.reads hdoing.follows.1 with ⟨-, -, hst⟩ | ⟨l, q, -, hst⟩
  · rw [hst, hact] at hlease
    rw [hst, Stage.read_start_fail hfail] at hnext
    refine hdoing.returns _ ?_ ?_
    · rw [hnext]
      exact hclient.answered
    · rw [hnext]
      exact hlease
  · rw [hst, hact] at hlease
    rw [hst, Stage.read_sent_fail hfail] at hnext
    refine hdoing.returns _ ?_ ?_
    · rw [hnext]
      exact hclient.answered
    · rw [hnext]
      exact hlease.imp rfl (fun _ _ => trivial)

end Reads

/-! ## Writes -/

section Writes

variable {m : Message} {w w' : Writing} {file : File} {status : IoStatus} {r : o.Ret}

/-- After a failure nothing depends on what the run is doing. -/
theorem Doing.failed (h : Doing R s j run o k c g)
    (hst : g.stage = .ended false ∨ ∃ l, g.stage = .spoilt l)
    (hact : ∀ i e, run.act ≠ .releasing i e) (act : Activity)
    (hact' : ∀ i e, act ≠ .releasing i e) (hc' : Answered R c' false) :
    ClientSide R c' g.stage act ∧ LeaseSide R s run g.stage act := by
  have hinHand : ∀ {st : Stage} {act : Activity}, (∀ i e, act ≠ .releasing i e) →
      inHand st act = st.lease := by
    intro st act hact
    cases act with
    | releasing i e => exact absurd rfl (hact i e)
    | idle | reading | writing | borrowing => rfl
  have hlease := h.conduct.lease
  have hl := (@hinHand g.stage act hact').trans (hinHand hact).symm
  rcases hst with hst | ⟨l, hst⟩
  · rw [hst] at hlease hl ⊢
    exact ⟨hc', hlease.imp hl (fun _ _ => trivial)⟩
  · rw [hst] at hlease hl ⊢
    exact ⟨hc', hlease.imp hl (fun _ _ => trivial)⟩

theorem Relayed.startWrite (h : Relayed R s none) (hj : s.runs[j]? = some run)
    (hrest : run.rest = .call o k) (hact : run.act = .idle) (hm : message o = some m)
    (hw : Writing.start m.data = .inl w) :
    Relayed R (s.setRun j { run with act := .writing w }) none := by
  obtain ⟨c, g, hdoing⟩ := h.doing hj hrest
  obtain ⟨hvalid, hpos, -⟩ := Writing.valid_start hw
  have hclient := hdoing.conduct.client
  have hlease := hdoing.conduct.lease
  rcases Phase.writes hdoing.follows.1 hm with ⟨-, -, -, l, q, hst⟩ | ⟨l, -, hst⟩ | ⟨-, -, -, hst⟩
  · rw [hst, hact] at hclient hlease
    obtain ⟨hreceived, hp, hresponse⟩ := hclient
    refine hdoing.starts (by simp) ?_ ?_
    · rw [hst]
      exact ⟨hreceived, hp, hvalid, by rw [hresponse, hpos, List.take_zero]⟩
    · rw [hst]
      exact hlease.imp rfl (fun _ hsettled => hsettled)
  · rw [hst, hact] at hclient hlease
    refine hdoing.starts (by simp) ?_ ?_
    · rw [hst]
      exact hclient
    · rw [hst]
      refine hlease.imp rfl (fun x hsettled => ⟨hvalid, ?_⟩)
      rw [hpos]
      exact (Stream.settled_iff_talks _).mp hsettled
  · obtain ⟨hclient, hlease⟩ := hdoing.failed hst (by simp [hact]) (.writing w) (by simp)
      hclient.answered
    exact hdoing.starts (by simp) hclient hlease

/-- What a call of `write_message` writes. -/
theorem message_of_wrote (h : wrote o status = some r) : ∃ m, message o = some m := by
  cases o with
  | writeMessage | replyErrorPlain | replyErrorTls => exact ⟨_, rfl⟩
  | incInFlight | decInFlight | incCompleted | incErrored | acceptHandshake | readMessage
  | poolBorrow | poolRelease | setBorrow | setRelease | safeClose | closeStream => cases h

/-- A write fails. -/
theorem Relayed.writeFailed (h : Relayed R s none) (hj : s.runs[j]? = some run)
    (hrest : run.rest = .call o k) (hact : run.act = .idle ∨ ∃ w, run.act = .writing w)
    (hstatus : status ≠ .kOk) (hr : wrote o status = some r) :
    Relayed R (s.setRun j (run.goOn o (k r))) none := by
  obtain ⟨c, g, hdoing⟩ := h.doing hj hrest
  obtain ⟨m, hm⟩ := message_of_wrote hr
  have hallow := hdoing.follows.1
  have hnext : (g.next o r).stage = g.stage.write status := by rw [Phase.next_wrote hallow hr]
  have hreleasing : ∀ i e, run.act ≠ .releasing i e := by
    intro i e heq
    rcases hact with hact | ⟨w, hact⟩
    · rw [hact] at heq
      cases heq
    · rw [hact] at heq
      cases heq
  have hclient := hdoing.conduct.client.answered
  have hlease := hdoing.conduct.lease
  rcases Phase.writes hallow hm with ⟨-, -, -, l, q, hst⟩ | ⟨l, -, hst⟩ | ⟨-, -, -, hst⟩
  · rw [hst, Stage.write_answered, decide_eq_false hstatus] at hnext
    rw [hst] at hlease
    refine hdoing.returns r ?_ ?_
    · rw [hnext]
      exact hclient
    · rw [hnext]
      refine hlease.imp ?_ (fun _ hsettled => hsettled)
      rcases hact with hact | ⟨w, hact⟩ <;> rw [hact] <;> rfl
  · rw [hst, Stage.write_lent_fail hstatus] at hnext
    rw [hst] at hlease
    refine hdoing.returns r ?_ ?_
    · rw [hnext]
      exact hclient
    · rw [hnext]
      refine hlease.imp ?_ (fun _ _ => trivial)
      rcases hact with hact | ⟨w, hact⟩ <;> rw [hact] <;> rfl
  · obtain ⟨hclient, hlease⟩ := hdoing.failed hst hreleasing .idle (by simp) hclient
    have hsame : g.stage.write status = g.stage := by
      rcases hst with hst | ⟨l, hst⟩ <;> rw [hst] <;> rfl
    rw [hsame] at hnext
    refine hdoing.returns r ?_ ?_
    · rwa [hnext]
    · rwa [hnext]

theorem sendTo_client (hc : s.clients[j]? = some c) (asResponse : Bool) (bytes : List UInt8) :
    s.sendTo asResponse bytes (.client j) =
      { s with clients := s.clients.set j (c.write asResponse bytes) } := by
  simp only [State.sendTo, hc]

/-- An error reply is no part of a response. -/
theorem Answered.writeError {whole : Bool} (h : Answered R c whole) (bytes : List UInt8) :
    Answered R (c.write false bytes) whole := ⟨h.part, h.all⟩

theorem Relayed.sendMore (h : Relayed R s none) (hj : s.runs[j]? = some run)
    (hrest : run.rest = .call o k) (hact : run.act = .writing w) (hm : message o = some m)
    (hfile : s.peerFile run m.peer = some file) (hn : n ≤ w.need m.data)
    (hw : w.send m.data n = .inl w') :
    Relayed R ((s.sendTo m.isResponse (w.chunk m.data n) file).setRun j
      { run with act := .writing w' }) none := by
  obtain ⟨c, g, hdoing⟩ := h.doing hj hrest
  have hclient := hdoing.conduct.client
  have hlease := hdoing.conduct.lease
  rcases Phase.writes hdoing.follows.1 hm with ⟨hpeer, hopen, hkind, l, q, hst⟩ | ⟨l, hpeer, hst⟩ |
    ⟨hpeer, hopen, hkind, hst⟩
  · rw [hdoing.peerFile_client hopen hpeer, Option.some.injEq] at hfile
    subst hfile
    rw [hst, hact] at hclient hlease
    obtain ⟨hreceived, hp, hvalid, hresponse⟩ := hclient
    obtain ⟨hvalid', hpos⟩ := Writing.send_more hvalid hn hw
    rw [sendTo_client hdoing.atClient, hkind]
    refine hdoing.turn (h.setClient j _) rfl (getElem?_set_client hdoing.atClient _) (by simp)
      hdoing.conduct.isOpen ?_ ?_
    · rw [hst]
      refine ⟨hreceived, hp, hvalid', ?_⟩
      show c.response ++ _ = _
      rw [hresponse, hvalid.take_append hn, hpos]
    · rw [hst]
      exact hlease.imp rfl (fun _ hsettled => hsettled)
  · obtain ⟨i, e, b, fd, n', hhold, hserver⟩ := hdoing.holding (l := l) (by rw [hst, hact]; rfl)
    rw [hpeer, hhold.peerFile, Option.some.injEq] at hfile
    subst hfile
    rw [hst, hact] at hclient hserver
    obtain ⟨hvalid, htalks⟩ := hserver
    obtain ⟨hvalid', hpos⟩ := Writing.send_more hvalid hn hw
    rw [sendTo_conn hhold.backend]
    refine hdoing.turn (h.converse hj hhold.backend hhold.ticket hhold.held hhold.file) rfl
      hdoing.atClient (by simp) hdoing.conduct.isOpen ?_ ?_
    · rw [hst]
      exact hclient
    · rw [hst]
      refine hhold.converse rfl ⟨hvalid', ?_⟩
      rw [hpos]
      exact htalks.write hvalid hn
  · rw [hdoing.peerFile_client hopen hpeer, Option.some.injEq] at hfile
    subst hfile
    rw [sendTo_client hdoing.atClient, hkind]
    obtain ⟨hclient, hlease⟩ := hdoing.failed hst (by simp [hact]) (.writing w') (by simp)
      (hclient.answered.writeError (w.chunk m.data n))
    exact hdoing.turn (h.setClient j _) rfl (getElem?_set_client hdoing.atClient _) (by simp)
      hdoing.conduct.isOpen hclient hlease

/-- A write returns after its last `send`.  The response is then whole. -/
theorem Relayed.sendDone (h : Relayed R s none) (hj : s.runs[j]? = some run)
    (hrest : run.rest = .call o k) (hact : run.act = .writing w) (hm : message o = some m)
    (hfile : s.peerFile run m.peer = some file) (hn : n ≤ w.need m.data)
    (hw : w.send m.data n = .inr status) (hr : wrote o status = some r) :
    Relayed R ((s.sendTo m.isResponse (w.chunk m.data n) file).setRun j (run.goOn o (k r)))
      none := by
  obtain ⟨c, g, hdoing⟩ := h.doing hj hrest
  have hallow := hdoing.follows.1
  have hclient := hdoing.conduct.client
  have hlease := hdoing.conduct.lease
  have hnext := Phase.next_wrote hallow hr
  rcases Phase.writes hallow hm with ⟨hpeer, hopen, hkind, l, q, hst⟩ | ⟨l, hpeer, hst⟩ |
    ⟨hpeer, hopen, hkind, hst⟩
  · rw [hdoing.peerFile_client hopen hpeer, Option.some.injEq] at hfile
    subst hfile
    rw [hst, hact] at hclient hlease
    obtain ⟨hreceived, hp, hvalid, hresponse⟩ := hclient
    obtain ⟨rfl, hpos⟩ := Writing.send_done hvalid hn hw
    rw [hst] at hnext
    rw [sendTo_client hdoing.atClient, hkind]
    refine hdoing.goOn (h.setClient j _) rfl (getElem?_set_client hdoing.atClient _) r
      (fun _ => hdoing.conduct.isOpen hopen) ?_ ?_
    · rw [hnext]
      have hwhole : (c.write true (w.chunk m.data n)).response = Connection.frame (R.answer q) := by
        show c.response ++ _ = _
        rw [hresponse, hvalid.take_append hn, hpos, List.take_length, hp]
      refine ⟨.inr ⟨q, hreceived, [], ?_⟩, fun _ => ⟨q, hreceived, hwhole⟩⟩
      rw [List.append_nil, hwhole]
    · rw [hnext]
      exact hlease.imp rfl (fun _ hsettled => hsettled)
  · obtain ⟨i, e, b, fd, n', hhold, hserver⟩ := hdoing.holding (l := l) (by rw [hst, hact]; rfl)
    rw [hpeer, hhold.peerFile, Option.some.injEq] at hfile
    subst hfile
    rw [hst, hact] at hclient hserver
    obtain ⟨hvalid, htalks⟩ := hserver
    obtain ⟨rfl, hpos⟩ := Writing.send_done hvalid hn hw
    rw [hst] at hnext
    rw [sendTo_conn hhold.backend]
    refine hdoing.goOn (h.converse hj hhold.backend hhold.ticket hhold.held hhold.file) rfl
      hdoing.atClient r ?_ ?_ ?_
    · intro hopen
      exact hdoing.conduct.isOpen (Phase.isOpen_of_next hopen)
    · rw [hnext]
      exact hclient
    · rw [hnext]
      have hwhole := htalks.write hvalid hn
      rw [hpos] at hwhole
      exact hhold.converse rfl hwhole
  · rw [hdoing.peerFile_client hopen hpeer, Option.some.injEq] at hfile
    subst hfile
    rw [sendTo_client hdoing.atClient, hkind]
    obtain ⟨hclient, hlease⟩ := hdoing.failed hst (by simp [hact]) .idle (by simp)
      (hclient.answered.writeError (w.chunk m.data n))
    have hsame : g.stage.write status = g.stage := by
      rcases hst with hst | ⟨l, hst⟩ <;> rw [hst] <;> rfl
    rw [hsame] at hnext
    refine hdoing.goOn (h.setClient j _) rfl (getElem?_set_client hdoing.atClient _) r ?_ ?_ ?_
    · intro _
      exact hdoing.conduct.isOpen hopen
    · rw [hnext]
      exact hclient
    · rw [hnext]
      exact hlease

end Writes


end InferenceRouter.Relay
