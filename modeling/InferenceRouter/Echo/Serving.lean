import InferenceRouter.Connection.Grammar
import InferenceRouter.Connection.Turns
import InferenceRouter.Interleaving.Machine
import InferenceRouter.Relay.Conversation

/-!
# The echo backend

`serve_one` of `tools/backend_echo`, which stands in for a model server in the integration
tests and in docker-compose.  It reads a message and writes it back, until a call fails.
Between two system calls of its thread the peer may send and read anything.

`requests` are the messages that it owes an answer: those that have arrived whole, up to
the first one above `kDefaultMaxPayload`.  What it has sent is always a part of the frames
of these, in order; and as long as its calls move bytes it gets to send them all
(`serve_one_answers`).
-/

namespace InferenceRouter.Echo

open Interleaving Connection

/-! ## `serve_one` -/

/-- Where the thread is. -/
inductive Serving where
  | reading (r : Reading)
  | writing (msg : List UInt8) (w : Writing)
  /-- Behind the loop, in front of `safe_close`. -/
  | leaving
  | closed

/-- `read_message` has returned: a message is written back, and any other status breaks the
loop. -/
def Serving.read : IoStatus × List UInt8 → Serving
  | (.kOk, msg) =>
      match Writing.start msg with
      | .inl w => .writing msg w
      | .inr _ => .leaving
  | _ => .leaving

/-- `write_message` has returned. -/
def Serving.wrote : IoStatus → Serving
  | .kOk => .reading .start
  | _ => .leaving

/-- The thread of a connection, with the number of bytes that it has received. -/
structure Thread where
  pc : Serving := .reading .start
  received : Nat := 0

inductive Turn where
  | recv (t : ReadTurn)
  | send (t : WriteTurn)
  | close

/-- The backend puts out bytes on the connection. -/
def reply (c : Relay.Stream) (bytes : List UInt8) : Relay.Stream :=
  { c with answered := c.answered ++ bytes }

def Thread.recv (t : Thread) (c : Relay.Stream) (turn : ReadTurn) : Option Thread :=
  match t.pc, turn.outcome 30000 with
  | .reading r, some o =>
      if o.chunk <+: c.sent.drop t.received then
        (r.turn kDefaultMaxPayload o).map (fun call =>
          { pc := call.elim .reading .read, received := t.received + o.chunk.length })
      else none
  | _, _ => none

def Thread.send (t : Thread) (c : Relay.Stream) (turn : WriteTurn) :
    Option (Thread × Relay.Stream) :=
  match t.pc, turn.outcome 5000 with
  | .writing msg w, some o =>
      (w.turn msg o).map (fun call =>
        ({ t with pc := call.elim (.writing msg) .wrote }, reply c (w.handed msg o)))
  | _, _ => none

def Thread.step (t : Thread) (c : Relay.Stream) : Turn → Option (Thread × Relay.Stream)
  | .recv turn => (t.recv c turn).map (fun t' => (t', c))
  | .send turn => t.send c turn
  | .close =>
      match t.pc with
      | .leaving => some ({ t with pc := .closed }, c)
      | _ => none

/-- Every way in which the thread moves. -/
inductive ThreadStep (t : Thread) (c : Relay.Stream) : Turn → Thread → Relay.Stream → Prop where
  | recvMore {turn : ReadTurn} {r r' : Reading} {o : Outcome (List UInt8)} :
      t.pc = .reading r → turn.outcome 30000 = some o → o.chunk <+: c.sent.drop t.received →
      r.turn kDefaultMaxPayload o = some (.inl r') →
      ThreadStep t c (.recv turn) ⟨.reading r', t.received + o.chunk.length⟩ c
  | recvDone {turn : ReadTurn} {r : Reading} {o : Outcome (List UInt8)} {status : IoStatus}
      {msg : List UInt8} :
      t.pc = .reading r → turn.outcome 30000 = some o → o.chunk <+: c.sent.drop t.received →
      r.turn kDefaultMaxPayload o = some (.inr (status, msg)) →
      ThreadStep t c (.recv turn) ⟨.read (status, msg), t.received + o.chunk.length⟩ c
  | sendMore {turn : WriteTurn} {msg : List UInt8} {w w' : Writing} {o : Outcome Nat} :
      t.pc = .writing msg w → turn.outcome 5000 = some o → w.turn msg o = some (.inl w') →
      ThreadStep t c (.send turn) ⟨.writing msg w', t.received⟩ (reply c (w.handed msg o))
  | sendDone {turn : WriteTurn} {msg : List UInt8} {w : Writing} {o : Outcome Nat}
      {status : IoStatus} :
      t.pc = .writing msg w → turn.outcome 5000 = some o → w.turn msg o = some (.inr status) →
      ThreadStep t c (.send turn) ⟨.wrote status, t.received⟩ (reply c (w.handed msg o))
  | close : t.pc = .leaving → ThreadStep t c .close ⟨.closed, t.received⟩ c

theorem Thread.step_cases {t t' : Thread} {c c' : Relay.Stream} {turn : Turn}
    (h : t.step c turn = some (t', c')) : ThreadStep t c turn t' c' := by
  cases turn with
  | recv turn =>
      obtain ⟨u, hu, heq⟩ := Option.map_eq_some_iff.mp h
      cases heq
      simp only [Thread.recv] at hu
      split at hu
      next r o hpc hout =>
        split at hu
        next hnext =>
          obtain ⟨call, hturn, rfl⟩ := Option.map_eq_some_iff.mp hu
          cases call with
          | inl r' => exact .recvMore hpc hout hnext hturn
          | inr result => exact .recvDone hpc hout hnext hturn
        next => cases hu
      next => cases hu
  | send turn =>
      simp only [Thread.step, Thread.send] at h
      split at h
      next msg w o hpc hout =>
        obtain ⟨call, hturn, heq⟩ := Option.map_eq_some_iff.mp h
        cases heq
        cases call with
        | inl w' => exact .sendMore hpc hout hturn
        | inr status => exact .sendDone hpc hout hturn
      next => cases h
  | close =>
      simp only [Thread.step] at h
      split at h
      next hpc =>
        cases h
        exact .close hpc
      next => cases h

theorem ThreadStep.sent_eq {t t' : Thread} {c c' : Relay.Stream} {turn : Turn}
    (h : ThreadStep t c turn t' c') : c'.sent = c.sent := by
  cases h <;> rfl

/-! ## Requests -/

/-- A message that the thread reads. -/
def small (q : List UInt8) : Bool := q.length ≤ kDefaultMaxPayload

/-- The messages that have arrived whole, up to the first one that is too long. -/
def requests (bytes : List UInt8) : List (List UInt8) := (completeFrames bytes).takeWhile small

variable {qs : List (List UInt8)}

theorem lt_of_small {q : List UInt8} (h : small q = true) : q.length < 2 ^ 32 := by
  have hle : q.length ≤ kDefaultMaxPayload := of_decide_eq_true h
  rw [kDefaultMaxPayload] at hle
  omega

theorem requests_append (h : ∀ q ∈ qs, small q = true) (rest : List UInt8) :
    ∃ fuel, requests (qs.flatMap frame ++ rest) = qs ++ (framesIn fuel rest).takeWhile small := by
  obtain ⟨fuel, hfuel⟩ := completeFrames_append (fun q hq => lt_of_small (h q hq)) rest
  exact ⟨fuel, by rw [requests, hfuel, List.takeWhile_append_of_pos h]⟩

/-- A message that has not arrived whole is no request. -/
theorem requests_has (h : ∀ q ∈ qs, small q = true) {r : Reading} {part : List UInt8}
    (hr : r.Has part) : requests (qs.flatMap frame ++ part) = qs := by
  obtain ⟨fuel, hfuel⟩ := requests_append h part
  rw [hfuel, framesIn_has hr, List.takeWhile_nil, List.append_nil]

/-- Nor is one whose header is refused. -/
theorem requests_refused (h : ∀ q ∈ qs, small q = true) {hdr : List UInt8} (hlen : hdr.length = 4)
    (hbig : kDefaultMaxPayload < headerLength hdr) (rest : List UInt8) :
    requests (qs.flatMap frame ++ (hdr ++ rest)) = qs := by
  obtain ⟨fuel, hfuel⟩ := requests_append h (hdr ++ rest)
  rw [← header_headerLength hlen] at hfuel
  have hnone : (framesIn fuel (header (headerLength hdr) ++ rest)).takeWhile small = [] := by
    rcases framesIn_header (headerLength_lt hdr) rest fuel with hnil | ⟨q, more, hq, hcons⟩
    · rw [hnil, List.takeWhile_nil]
    · rw [hcons, List.takeWhile_cons, if_neg (by simpa [small, hq] using hbig)]
  rw [hnone, List.append_nil, header_headerLength hlen] at hfuel
  exact hfuel

/-! ## What the thread has answered -/

/-- The first requests are in, and of their answers what is out. -/
structure Owes (qs : List (List UInt8)) (c : Relay.Stream) : Prop where
  small : ∀ q ∈ qs, small q = true
  sent : qs.flatMap frame <+: c.sent
  answered : c.answered <+: qs.flatMap frame

/-- Where the thread is on its connection. -/
inductive Answering (c : Relay.Stream) : Thread → Prop where
  /-- Every message is answered but the one being read. -/
  | reading {r : Reading} {n : Nat} (qs : List (List UInt8)) (part rest : List UInt8) :
      (∀ q ∈ qs, small q = true) → r.Has part → r.Accepted kDefaultMaxPayload →
      c.sent = qs.flatMap frame ++ part ++ rest → n = (qs.flatMap frame ++ part).length →
      c.answered = qs.flatMap frame → Answering c ⟨.reading r, n⟩
  /-- The last message is being answered. -/
  | writing {msg : List UInt8} {w : Writing} {n : Nat} (qs : List (List UInt8))
      (rest : List UInt8) :
      (∀ q ∈ qs, small q = true) → small msg = true → w.Valid msg →
      c.sent = qs.flatMap frame ++ frame msg ++ rest → n = (qs.flatMap frame ++ frame msg).length →
      c.answered = qs.flatMap frame ++ (frame msg).take w.pos → Answering c ⟨.writing msg w, n⟩
  | ended {pc : Serving} {n : Nat} (qs : List (List UInt8)) : pc = .leaving ∨ pc = .closed →
      Owes qs c → Answering c ⟨pc, n⟩

variable {c c' : Relay.Stream} {t t' : Thread} {turn : Turn}

theorem answering_new : Answering {} {} :=
  .reading [] [] [] (by simp) Reading.has_start trivial rfl rfl rfl

theorem Answering.owes (h : Answering c t) : ∃ qs, Owes qs c := by
  cases h with
  | reading qs part rest hsmall _ _ hsent _ hanswered =>
      refine ⟨qs, hsmall, ?_, hanswered ▸ List.prefix_rfl⟩
      rw [hsent, List.append_assoc]
      exact List.prefix_append _ _
  | @writing msg w _ qs rest hsmall hmsg _ hsent _ hanswered =>
      refine ⟨qs ++ [msg], ?_, ?_, ?_⟩
      · simpa [or_imp, forall_and] using ⟨hsmall, hmsg⟩
      · rw [hsent, List.flatMap_append, List.flatMap_singleton]
        exact List.prefix_append _ _
      · rw [hanswered, List.flatMap_append, List.flatMap_singleton,
          List.prefix_append_right_inj]
        exact List.take_prefix _ _
  | ended qs _ howes => exact ⟨qs, howes⟩

/-- What is out is a part of the answers to the requests. -/
theorem Owes.prefix_requests (h : Owes qs c) : c.answered <+: (requests c.sent).flatMap frame := by
  obtain ⟨rest, hrest⟩ := h.sent
  obtain ⟨fuel, hfuel⟩ := requests_append h.small rest
  rw [← hrest, hfuel, List.flatMap_append]
  exact h.answered.trans (List.prefix_append _ _)

/-- The peer sends more. -/
theorem Answering.heard (h : Answering c t) (hsent : c.sent <+: c'.sent)
    (hanswered : c'.answered = c.answered) : Answering c' t := by
  obtain ⟨more, hmore⟩ := hsent
  cases h with
  | reading qs part rest hsmall hhas hacc hold hn hold' =>
      refine .reading qs part (rest ++ more) hsmall hhas hacc ?_ hn (hanswered.trans hold')
      rw [← hmore, hold, List.append_assoc]
  | writing qs rest hsmall hmsg hvalid hold hn hold' =>
      refine .writing qs (rest ++ more) hsmall hmsg hvalid ?_ hn (hanswered.trans hold')
      rw [← hmore, hold, List.append_assoc]
  | ended qs hpc howes =>
      exact .ended qs hpc ⟨howes.small, howes.sent.trans ⟨more, hmore⟩, hanswered ▸ howes.answered⟩

theorem Serving.read_of_ne {status : IoStatus} (h : status ≠ .kOk) (msg : List UInt8) :
    Serving.read (status, msg) = .leaving := by
  cases status <;> first | rfl | exact absurd rfl h

theorem Serving.wrote_of_ne {status : IoStatus} (h : status ≠ .kOk) :
    Serving.wrote status = .leaving := by
  cases status <;> first | rfl | exact absurd rfl h

theorem Answering.ended_of_owes (h : ∃ qs, Owes qs c) (n : Nat) : Answering c ⟨.leaving, n⟩ := by
  obtain ⟨qs, howes⟩ := h
  exact .ended qs (.inl rfl) howes

/-- The bytes that are there to be received. -/
theorem drop_received {part rest : List UInt8} {n : Nat}
    (hsent : c.sent = qs.flatMap frame ++ part ++ rest)
    (hn : n = (qs.flatMap frame ++ part).length) : c.sent.drop n = rest := by
  rw [hsent, hn, List.drop_left]

theorem Serving.read_small {msg : List UInt8} (h : small msg = true) :
    Serving.read (.kOk, msg) = .writing msg (.header 0) := by
  have hfits : ¬ 0xFFFFFFFF < msg.length := by
    have := lt_of_small h
    omega
  simp only [Serving.read, Writing.start, if_neg hfits]

/-- `read_message` of the thread has its message, and the answer begins. -/
theorem Answering.start {msg : List UInt8} {n : Nat} (rest : List UInt8)
    (hsmall : ∀ q ∈ qs, small q = true) (hmsg : msg.length ≤ kDefaultMaxPayload)
    (hsent : c.sent = qs.flatMap frame ++ frame msg ++ rest)
    (hn : n = (qs.flatMap frame ++ frame msg).length) (hanswered : c.answered = qs.flatMap frame) :
    Answering c ⟨.read (.kOk, msg), n⟩ := by
  have hmsg : small msg = true := decide_eq_true hmsg
  rw [Serving.read_small hmsg]
  refine .writing qs rest hsmall hmsg (by simp [Writing.Valid]) hsent hn ?_
  rw [hanswered, Writing.pos, List.take_zero, List.append_nil]

/-- `write_message` of the thread has sent its message. -/
theorem Answering.finish {msg : List UInt8} {n : Nat} (rest : List UInt8)
    (hsmall : ∀ q ∈ qs, small q = true) (hmsg : small msg = true)
    (hsent : c.sent = qs.flatMap frame ++ frame msg ++ rest)
    (hn : n = (qs.flatMap frame ++ frame msg).length)
    (hanswered : c.answered = qs.flatMap frame ++ frame msg) :
    Answering c ⟨.reading .start, n⟩ := by
  have hflat : (qs ++ [msg]).flatMap frame = qs.flatMap frame ++ frame msg := by
    rw [List.flatMap_append, List.flatMap_singleton]
  refine .reading (qs ++ [msg]) [] rest ?_ Reading.has_start trivial ?_ ?_ ?_
  · simpa [or_imp, forall_and] using ⟨hsmall, hmsg⟩
  · rw [hflat, List.append_nil, hsent]
  · rw [hflat, List.append_nil, hn]
  · rw [hflat, hanswered]

/-- Every turn keeps the thread to its answers. -/
theorem Answering.step (h : Answering c t) (hstep : ThreadStep t c turn t' c') :
    Answering c' t' ∧ ∃ bytes, c' = reply c bytes := by
  have hnothing : c = reply c [] := by
    rw [reply, List.append_nil]
  cases hstep with
  | recvMore hpc hout hnext hturn =>
      refine ⟨?_, [], hnothing⟩
      cases h with
      | reading qs part rest hsmall hhas hacc hsent hn hanswered =>
          cases hpc
          rw [drop_received hsent hn] at hnext
          obtain ⟨rest', rfl⟩ := hnext
          obtain ⟨hhas', hacc'⟩ := Reading.turn_more hhas hacc hturn
          refine .reading qs _ rest' hsmall hhas' hacc' ?_ ?_ hanswered
          · rw [hsent]
            simp only [List.append_assoc]
          · rw [hn]
            simp only [List.length_append, Nat.add_assoc]
      | writing => cases hpc
      | ended _ hended =>
          rcases hended with rfl | rfl <;> cases hpc
  | recvDone hpc hout hnext hturn =>
      refine ⟨?_, [], hnothing⟩
      have howes := h.owes
      cases h with
      | reading qs part rest hsmall hhas hacc hsent hn hanswered =>
          cases hpc
          rw [drop_received hsent hn] at hnext
          obtain ⟨rest', rfl⟩ := hnext
          rcases Reading.turn_returns hhas hacc hturn with
            ⟨rfl, hframe, -, hmax⟩ | ⟨rfl, -⟩ | ⟨rfl, -⟩
          · refine .start rest' hsmall hmax ?_ ?_ hanswered
            · rw [hsent, ← hframe]
              simp only [List.append_assoc]
            · rw [hn, ← hframe]
              simp only [List.length_append, Nat.add_assoc]
          · exact .ended_of_owes howes _
          · rw [Serving.read_of_ne (ReadTurn.outcome_stop hout)]
            exact .ended_of_owes howes _
      | writing => cases hpc
      | ended _ hended =>
          rcases hended with rfl | rfl <;> cases hpc
  | @sendMore _ msg w w' o hpc hout hturn =>
      refine ⟨?_, _, rfl⟩
      cases h with
      | writing qs rest hsmall hmsg hvalid hsent hn hanswered =>
          cases hpc
          obtain ⟨hvalid', htake⟩ := Writing.turn_more hvalid hturn
          refine .writing qs rest hsmall hmsg hvalid' hsent hn ?_
          show c.answered ++ w.handed msg o = _
          rw [hanswered, List.append_assoc, htake]
      | reading => cases hpc
      | ended _ hended =>
          rcases hended with rfl | rfl <;> cases hpc
  | @sendDone _ msg w o status hpc hout hturn =>
      refine ⟨?_, _, rfl⟩
      have howes := h.owes
      cases h with
      | writing qs rest hsmall hmsg hvalid hsent hn hanswered =>
          cases hpc
          rcases Writing.turn_returns hvalid hturn with ⟨rfl, htake⟩ | ⟨rfl, hnone⟩
          · refine .finish rest hsmall hmsg hsent hn ?_
            show c.answered ++ w.handed msg o = _
            rw [hanswered, List.append_assoc, htake]
          · rw [Serving.wrote_of_ne (WriteTurn.outcome_stop hout), hnone, ← hnothing]
            exact .ended_of_owes howes _
      | reading => cases hpc
      | ended _ hended =>
          rcases hended with rfl | rfl <;> cases hpc
  | close hpc =>
      obtain ⟨qs, howes⟩ := h.owes
      exact ⟨.ended qs (.inr rfl) howes, [], hnothing⟩

/-! ## Runs -/

inductive Event where
  | turn (turn : Turn)
  /-- The peer sends. -/
  | peer (bytes : List UInt8)

/-- A connection with its thread.  That the peer reads makes no difference to the thread. -/
def machine : Machine (Thread × Relay.Stream) Event where
  init := ({}, {})
  step s
    | .turn turn => s.1.step s.2 turn
    | .peer bytes => some (s.1, s.2.send bytes)

theorem reachable_answering {s : Thread × Relay.Stream} (h : machine.Reachable s) :
    Answering s.2 s.1 := by
  refine h.invariant (P := fun s => Answering s.2 s.1) answering_new ?_
  intro s e s' hs hstep
  cases e with
  | turn turn => exact (hs.step (Thread.step_cases hstep)).1
  | peer bytes =>
      cases hstep
      exact hs.heard (List.prefix_append _ _) rfl

/-! ## Calls that move bytes -/

/-- A turn whose system call moves bytes. -/
def Event.moves : Event → Bool
  | .turn (.recv t) =>
      match t.outcome 30000 with
      | some (.moved _) => true
      | _ => false
  | .turn (.send t) =>
      match t.outcome 5000 with
      | some (.moved _) => true
      | _ => false
  | .turn .close | .peer _ => false

/-- The loop has not been left. -/
def Serving.inLoop : Serving → Bool
  | .reading _ | .writing _ _ => true
  | .leaving | .closed => false

/-- Every request is answered. -/
def AnswersAll (c : Relay.Stream) : Prop := c.answered = (requests c.sent).flatMap frame

/-- The thread has not been disturbed: it has left its loop only for a message that is too
long, behind which nothing is a request. -/
def Undisturbed (s : Thread × Relay.Stream) : Prop :=
  Answering s.2 s.1 ∧ (s.1.pc.inLoop = false → AnswersAll s.2)

variable {s s' : Thread × Relay.Stream} {e : Event}

theorem Undisturbed.step (h : Undisturbed s) (hmoves : e.moves = true)
    (hstep : machine.step s e = some s') : Undisturbed s' := by
  obtain ⟨t, c⟩ := s
  obtain ⟨t', c'⟩ := s'
  cases e with
  | peer => cases hmoves
  | turn turn =>
      have hcases : ThreadStep t c turn t' c' := Thread.step_cases hstep
      refine ⟨(h.1.step hcases).1, fun hleft => ?_⟩
      obtain ⟨hanswering, -⟩ := h
      cases hcases with
      | recvMore | sendMore => cases hleft
      | close => cases hmoves
      | recvDone hpc hout hnext hturn =>
          cases hanswering with
          | reading qs part rest hsmall hhas hacc hsent hn hanswered =>
              cases hpc
              rw [drop_received hsent hn] at hnext
              obtain ⟨rest', rfl⟩ := hnext
              rcases Reading.turn_returns hhas hacc hturn with
                ⟨rfl, -, -, hmax⟩ | ⟨rfl, -, hlen, hbig⟩ | ⟨rfl, -⟩
              · rw [Serving.read_small (decide_eq_true hmax)] at hleft
                cases hleft
              · have hrefused := requests_refused hsmall hlen hbig rest'
                rw [List.append_assoc] at hrefused
                show c.answered = (requests c.sent).flatMap frame
                rw [hsent, List.append_assoc, hrefused, hanswered]
              · simp only [Event.moves, hout] at hmoves
                cases hmoves
          | writing => cases hpc
          | ended _ hended =>
              rcases hended with rfl | rfl <;> cases hpc
      | sendDone hpc hout hturn =>
          cases hanswering with
          | writing qs rest hsmall hmsg hvalid hsent hn hanswered =>
              cases hpc
              rcases Writing.turn_returns hvalid hturn with ⟨rfl, -⟩ | ⟨rfl, -⟩
              · cases hleft
              · simp only [Event.moves, hout] at hmoves
                cases hmoves
          | reading => cases hpc
          | ended _ hended =>
              rcases hended with rfl | rfl <;> cases hpc

/-- The bytes that have still to be read, twice because they have to be sent back, and those
that have only to be sent back. -/
def pending (s : Thread × Relay.Stream) : Nat :=
  2 * (s.2.sent.length - s.1.received) + (s.1.received - s.2.answered.length)

/-- A byte that is there can be received. -/
theorem exists_recv {r : Reading} {n : Nat} {b : UInt8} {rest : List UInt8}
    (hneed : 0 < r.need) (hrest : c.sent.drop n = b :: rest) :
    ∃ e pc, e.moves = true ∧ machine.step (⟨.reading r, n⟩, c) e = some (⟨pc, n + 1⟩, c) := by
  refine ⟨.turn (.recv { recv := .bytes [b] }),
    (r.recv kDefaultMaxPayload [b]).elim .reading .read, rfl, ?_⟩
  have hout : ReadTurn.outcome 30000 { recv := .bytes [b] } = some (.moved [b]) := by
    simp [ReadTurn.outcome]
  have hturn : r.turn kDefaultMaxPayload (.moved [b]) = some (r.recv kDefaultMaxPayload [b]) := by
    simp only [Reading.turn, List.length_singleton]
    exact if_pos ⟨Nat.one_pos, hneed⟩
  have hnext : (Outcome.moved [b]).chunk <+: c.sent.drop n := by
    rw [hrest]
    exact ⟨rest, rfl⟩
  simp only [machine, Thread.step, Thread.recv, hout, if_pos hnext, hturn, Option.map_some]
  rfl

/-- A byte of the answer can be sent. -/
theorem exists_send {msg : List UInt8} {w : Writing} {n : Nat} (hvalid : w.Valid msg) :
    ∃ e pc c', e.moves = true ∧ machine.step (⟨.writing msg w, n⟩, c) e = some (⟨pc, n⟩, c') ∧
      c'.sent = c.sent ∧ c'.answered.length = c.answered.length + 1 := by
  refine ⟨.turn (.send { send := .sent 1 }), (w.send msg 1).elim (.writing msg) .wrote,
    reply c (w.chunk msg 1), rfl, ?_, rfl, ?_⟩
  · have hout : WriteTurn.outcome 5000 { send := .sent 1 } = some (.moved 1) := by
      simp [WriteTurn.outcome]
    have hturn : w.turn msg (.moved 1) = some (w.send msg 1) := if_pos hvalid.need_pos
    simp only [machine, Thread.step, Thread.send, hout, hturn, Option.map_some]
    rfl
  · have hneed : 1 ≤ w.need msg := hvalid.need_pos
    have htake := congrArg List.length (hvalid.take_append hneed)
    have hlt := hvalid.pos_lt
    simp only [List.length_append, List.length_take] at htake
    show (c.answered ++ w.chunk msg 1).length = _
    rw [List.length_append]
    omega

/-- As long as a request is not answered, the thread can move a byte nearer to it. -/
theorem Undisturbed.exists_lower (h : Undisturbed s) (hnot : ¬ AnswersAll s.2) :
    ∃ s', machine.Reaches (fun e => e.moves = true) s s' ∧ pending s' < pending s := by
  obtain ⟨⟨pc, n⟩, c⟩ := s
  obtain ⟨hanswering, hleft⟩ := h
  cases hanswering with
  | @reading r _ qs part rest hsmall hhas hacc hsent hn hanswered =>
      cases rest with
      | nil =>
          refine absurd ?_ hnot
          show c.answered = (requests c.sent).flatMap frame
          rw [hsent, List.append_nil, requests_has hsmall hhas, hanswered]
      | cons b rest =>
          obtain ⟨e, pc, he, hstep⟩ := exists_recv hhas.need_pos (drop_received hsent hn)
          refine ⟨_, .single he hstep, ?_⟩
          have hlen := congrArg List.length hsent
          simp only [List.length_append, List.length_cons] at hlen hn
          simp only [pending]
          omega
  | @writing msg w _ qs rest hsmall hmsg hvalid hsent hn hanswered =>
      obtain ⟨e, pc, c', he, hstep, hsame, hone⟩ := exists_send (c := c) (n := n) hvalid
      refine ⟨_, .single he hstep, ?_⟩
      have hlt := hvalid.pos_lt
      have hlen := congrArg List.length hanswered
      simp only [List.length_append, List.length_take] at hlen hn
      simp only [pending, hsame, hone]
      omega
  | ended _ hended =>
      refine absurd (hleft ?_) hnot
      rcases hended with rfl | rfl <;> rfl

/-- In every state of a connection to the echo backend, what `serve_one` has sent is a part
of the frames of the messages that have arrived whole, in order and up to the first one above
`kDefaultMaxPayload`.  As long as it is in its loop, system calls that move bytes, without
any further byte from the peer, bring it to the end of these frames. -/
theorem serve_one_answers {s : Thread × Relay.Stream} (h : machine.Reachable s) :
    s.2.answered <+: (requests s.2.sent).flatMap frame ∧
      (s.1.pc.inLoop = true → ∃ s', machine.Reaches (fun e => e.moves = true) s s' ∧
        s'.2.sent = s.2.sent ∧ s'.2.answered = (requests s.2.sent).flatMap frame) := by
  have hanswering := reachable_answering h
  obtain ⟨qs, howes⟩ := hanswering.owes
  refine ⟨howes.prefix_requests, fun hin => ?_⟩
  have hundisturbed : Undisturbed s := ⟨hanswering, fun hleft => by rw [hin] at hleft; cases hleft⟩
  obtain ⟨t, ht, hall⟩ : ∃ t, machine.Reaches (fun e => e.moves = true) s t ∧ AnswersAll t.2 :=
    Machine.exists_reaches_of_rank (P := Undisturbed) pending
      (fun _ _ _ hu hmoves hstep => hu.step hmoves hstep) (fun _ hu hnot => hu.exists_lower hnot)
      hundisturbed
  have hsent : t.2.sent = s.2.sent := by
    refine ht.invariant (P := fun t => t.2.sent = s.2.sent) ?_ rfl
    intro u e u' hu hmoves hstep
    cases e with
    | peer => cases hmoves
    | turn turn =>
        have hcases : ThreadStep u.1 u.2 turn u'.1 u'.2 := Thread.step_cases hstep
        exact hcases.sent_eq.trans hu
  exact ⟨t, ht, hsent, by rw [← hsent]; exact hall⟩

/-- A message of one byte, of which the header has been read, and the beginning of another. -/
def oneMessage : List Event :=
  [.peer [0, 0, 0, 1, 7, 0, 0], .turn (.recv { recv := .bytes [0, 0, 0, 1] })]

theorem serve_one_answers_oneMessage :
    machine.run oneMessage =
        some (⟨.reading (.payload 1 []), 4⟩, { sent := [0, 0, 0, 1, 7, 0, 0] }) ∧
      ∃ s', machine.Reaches (fun e => e.moves = true)
          (⟨.reading (.payload 1 []), 4⟩, { sent := [0, 0, 0, 1, 7, 0, 0] }) s' ∧
        s'.2.answered = [0, 0, 0, 1, 7] := by
  have hrun : machine.run oneMessage =
      some (⟨.reading (.payload 1 []), 4⟩, { sent := [0, 0, 0, 1, 7, 0, 0] }) := by
    simp [Machine.run, Machine.exec, machine, oneMessage, Relay.Stream.send, Thread.step,
      Thread.recv, ReadTurn.outcome, Outcome.chunk, Reading.turn, Reading.start, Reading.need,
      Reading.recv, headerLength, kDefaultMaxPayload]
  obtain ⟨s', hreach, -, hanswered⟩ := (@serve_one_answers _ ⟨oneMessage, hrun⟩).2 rfl
  exact ⟨hrun, s', hreach, hanswered⟩

end InferenceRouter.Echo
