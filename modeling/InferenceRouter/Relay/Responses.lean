import InferenceRouter.Relay.Exchange

/-!
# Responses never cross

What a run has written to its client as a response is a part of the answer to the
request that it read from that client, and the whole of it once the run has counted
the request as completed.  It rests on what the pools lend: a connection that is
idle has no unanswered request and no unread answer, however the exchanges and the
pings before ended.
-/

namespace InferenceRouter.Relay

open Interleaving Connection Handler

variable {R : Service} {s s' : State}

theorem relayed_step (h : Step R s s') (hs : Relayed R s none) : Relayed R s' none := by
  cases h with
  | clock => exact hs.frame rfl rfl rfl (fun _ _ _ => Iff.rfl) (fun _ _ _ hj => hj)
  | foreignOpen hfree => exact hs.setFile (by simp [hfree]) (by simp) (by simp [hfree])
  | foreignClose hother => exact hs.setFile (by simp [hother]) (by simp) (by simp [hother])
  | answer hb hc => exact hs.answer hb hc
  | pool hb htame hstep => exact hs.pool hb htame hstep
  | pingSendMore hb hw hfd hfile hn hsend => exact hs.pingSendMore hb hw hfd hfile hn hsend
  | pingSendDone hb hw hfd hfile hn hsend => exact hs.pingSendDone hb hw hfd hfile hn hsend
  | pingRecvMore hb hr hfd hfile hneed hs₁ hrecv =>
      exact hs.pingRecvMore hb hr hfd hfile hneed hs₁ hrecv
  | pingRecvDone hb hr hfd hfile hneed hs₁ hrecv hs₂ =>
      exact hs.pingRecvDone hb hr hfd hfile hneed hs₁ hrecv hs₂
  | pingStop hs₁ => exact hs.pingStop hs₁
  | accept overload opts hfree => exact hs.accept overload opts hfree
  | count r hj hrest hact ho => exact hs.count hj hrest hact ho r
  | close r hj hrest hact ho => exact hs.close hj hrest hact ho r
  | handshake hj hrest hact => exact hs.handshake hj hrest hact
  | handshakeFailed hj hrest hact => exact hs.handshakeFailed hj hrest hact
  | startRead hj hrest hact => exact hs.startRead hj hrest hact
  | startWrite hj hrest hact hm hw => exact hs.startWrite hj hrest hact hm hw
  | oversize hj hrest hact hm hw hr =>
      exact hs.writeFailed hj hrest (.inl hact) (Writing.start_fail hw) hr
  | borrow hj hrest hact ho hb hs₁ => exact hs.borrow hj hrest hact ho hb hs₁
  | noPools hj hrest hact => exact hs.noPools hj hrest hact
  | releaseNothing r hj hrest hact ho hnothing =>
      exact absurd hnothing (hs.releaseNothing hj hrest hact ho)
  | release hj hrest hact ho hb ht => exact hs.release hj hrest hact ho hb ht
  | recvMore hj hrest hact hfile hneed hs₁ hrecv =>
      exact hs.recvMore hj hrest hact hfile hneed hs₁ hrecv
  | recvDone hj hrest hact hfile hneed hs₁ hrecv =>
      exact hs.recvDone hj hrest hact hfile hneed hs₁ hrecv
  | sendMore hj hrest hact hm hfile hn hw => exact hs.sendMore hj hrest hact hm hfile hn hw
  | sendDone hj hrest hact hm hfile hn hw hr => exact hs.sendDone hj hrest hact hm hfile hn hw hr
  | stopRead hj hrest hact hstatus => exact hs.stopRead hj hrest hact hstatus
  | stopWrite hj hrest hact hstatus hr =>
      refine hs.writeFailed hj hrest (.inr ⟨_, hact⟩) ?_ hr
      rintro rfl
      cases hstatus
  | borrowed hj hrest hact hheld hr => exact hs.borrowed hj hrest hact hheld hr
  | borrowFailed hj hrest hact hr => exact hs.borrowFailed hj hrest hact hr
  | released hj hrest hact hr => exact hs.released hj hrest hact hr

theorem relayed_init (opts : List BackendPool.Options) :
    Relayed R (machine R opts).init none := by
  refine ⟨?_, by simp [machine], by simp [machine], rfl⟩
  intro i b hb
  obtain ⟨o, -, rfl⟩ : ∃ o, opts[i]? = some o ∧ { opts := o } = b := by
    simpa [machine] using hb
  exact ⟨BackendPool.ledger_new _, by simp [State.view], rfl, by simp [State.view]⟩

theorem reachable_relayed {opts : List BackendPool.Options} (h : (machine R opts).Reachable s) :
    Relayed R s none :=
  h.invariant (P := fun s => Relayed R s none) (relayed_init opts)
    (fun _ _ _ hs hstep => relayed_step (step_cases hstep) hs)

/-- What a run has written to its client as a response is a part of the frame of
`R q`, for the request `q` that the run read from that client, and all of it when
the run counts as completed.  No connection in an idle deque has an unanswered
request or an unread answer. -/
theorem responses_never_cross (R : Service) (opts : List BackendPool.Options) {s : State}
    (h : (machine R opts).Reachable s) :
    (∀ (j : Nat) (run : Run) (client : Client), s.runs[j]? = some run →
      s.clients[j]? = some client →
        (client.response = [] ∨
          ∃ q, client.received = frame q ∧ client.response <+: frame (R.answer q)) ∧
        (0 < run.tally.completed →
          ∃ q, client.received = frame q ∧ client.response = frame (R.answer q))) ∧
    (∀ (i : Nat) (b : Backend), s.backends[i]? = some b → ∀ slot ∈ b.pool.idle,
      ∃ n, s.table slot.fd = some (.conn i n) ∧ (b.conns n).Settled R) := by
  have hs := reachable_relayed h
  constructor
  · intro j run client hj hclient
    obtain ⟨c, hc, g, hg⟩ := hs.conduct j run hj (by simp)
    rw [hclient, Option.some.injEq] at hc
    subst hc
    refine ⟨hg.client.answered.part, ?_⟩
    intro hcompleted
    have hwhole := hg.client
    rw [hg.completed hcompleted] at hwhole
    exact hwhole.all rfl
  · intro i b hb slot hslot
    have hkept := hs.kept i b hb
    obtain ⟨n, hn, -⟩ := hkept.table_owned (BackendPool.mem_owned_of_idle hslot)
    exact ⟨n, hn, hkept.standing.idle slot hslot n hn⟩

/-- A backend that answers with the first byte of the request. -/
def firstByte : Service where
  answer q := q.take 1
  fits q := by
    rw [List.length_take]
    omega

/-- A client's request of one byte is read, forwarded and answered piece by piece;
then the reaper pings the connection. -/
def oneExchange : List Event :=
  [.accept 5 .set {}, .call 0, .call 0, .recv 0 [0, 0], .recv 0 [0, 1], .recv 0 [7], .pick 0 0,
    .pool 0 (.borrowLock 0), .pool 0 (.dialOk 0 6), .pool 0 (.incPoolCreate 0),
    .pool 0 (.incPoolBorrow 0), .resume 0, .call 0, .send 0 4, .send 0 1, .call 0,
    .answer 0 0 [0, 0, 0, 1, 7], .recv 0 [0, 0, 0, 1], .recv 0 [7], .call 0, .send 0 3, .send 0 1,
    .send 0 1, .call 0, .pool 0 (.sample 0), .pool 0 (.releaseLock 0 none), .resume 0, .call 0,
    .call 0, .call 0, .pool 0 .reaperLock, .clock 10000, .pool 0 .reaperLock, .pool 0 .reaperStep,
    .pingSend 0 4, .answer 0 0 [0, 0, 0, 0], .pingRecv 0 [0, 0, 0, 0], .pool 0 .reaperStep,
    .pool 0 .reaperStep, .pool 0 .reaperLock]

theorem responses_never_cross_oneExchange : ∃ s run client b,
    (machine firstByte [{}]).run oneExchange = some s ∧ s.runs[0]? = some run ∧
      s.clients[0]? = some client ∧ s.backends[0]? = some b ∧ run.tally.completed = 1 ∧
      client.response = [0, 0, 0, 1, 7] ∧ b.pool.idle.map BackendPool.Slot.fd = [6] ∧
      (∃ q, client.received = frame q ∧ client.response = frame (firstByte.answer q)) ∧
      ∀ slot ∈ b.pool.idle,
        ∃ n, s.table slot.fd = some (.conn 0 n) ∧ (b.conns n).Settled firstByte := by
  refine ⟨_, _, _, _, rfl, rfl, rfl, rfl, rfl, rfl, rfl, ?_, ?_⟩
  · have hcross := responses_never_cross firstByte [{}] ⟨oneExchange, rfl⟩
    exact (hcross.1 0 _ _ rfl rfl).2 (by decide)
  · have hcross := responses_never_cross firstByte [{}] ⟨oneExchange, rfl⟩
    exact hcross.2 0 _ rfl

end InferenceRouter.Relay
