import InferenceRouter.BackendPool.Recycling
import InferenceRouter.Echo.Serving
import InferenceRouter.Relay.Responses

/-!
# The router in front of echo backends

`Relay.Model` leaves the backends open: each answers with a function of the request, in
order and nothing else.  Here every connection that a pool has dialled is served by a thread
of `serve_one`, which sees only the bytes that come over it.  The thread keeps to the
contract (`answer_of_answering`), so every run of the whole is one of `Relay.Model` with the
identity for the backends' function, and a client that is answered gets its own request back
(`own_request_returned`).
-/

namespace InferenceRouter.Relay

open Interleaving Connection Handler

/-! ## What is read from a client fits a frame -/

variable {R : Service} {s s' t : State} {bytes : List UInt8}

def State.Fits (s : State) : Prop := ∀ c ∈ s.clients, c.received.length < 2 ^ 32 + 4

theorem State.Fits.of_eq (h : s.Fits) (heq : s'.clients = s.clients) : s'.Fits := by
  intro c hc
  rw [heq] at hc
  exact h c hc

theorem State.Fits.setClient (h : s.Fits) {j : Nat} {c : Client}
    (heq : t.clients = s.clients.set j c) (hc : c.received.length < 2 ^ 32 + 4) : t.Fits := by
  intro d hd
  rw [heq] at hd
  rcases List.mem_or_eq_of_mem_set hd with hold | rfl
  · exact h d hold
  · exact hc

/-- What a call of `read_message` has taken and asks for fits a frame. -/
theorem Has.length_lt {r : Reading} {taken : List UInt8} (h : r.Has taken)
    (hneed : bytes.length ≤ r.need) : (taken ++ bytes).length < 2 ^ 32 + 4 := by
  cases r with
  | header got =>
      obtain ⟨rfl, hgot⟩ := h
      simp only [Reading.need] at hneed
      rw [List.length_append]
      omega
  | payload len got =>
      obtain ⟨rfl, hlen, hgot⟩ := h
      simp only [Reading.need] at hneed
      simp only [List.length_append, length_header]
      omega

theorem sendTo_fits (h : s.Fits) (asResponse : Bool) (bytes : List UInt8) (file : File) :
    (s.sendTo asResponse bytes file).Fits := by
  simp only [State.sendTo]
  split
  next =>
    split
    next => exact h.of_eq rfl
    next => exact h
  next =>
    split
    next c hc =>
      refine h.setClient rfl ?_
      have hreceived : (c.write asResponse bytes).received = c.received := by
        cases asResponse <;> rfl
      rw [hreceived]
      exact h c (List.mem_of_getElem? hc)
    next => exact h
  next => exact h

theorem setPing_clients (s : State) (i : Nat) (p : Ping) : (s.setPing i p).clients = s.clients := by
  simp only [State.setPing]
  split <;> rfl

theorem poolStep_clients {i : Nat} {e : BackendPool.Event} (h : s.poolStep i e = some s') :
    s'.clients = s.clients := by
  obtain ⟨b, v, -, -, rfl⟩ := poolStep_cases h
  rfl

/-- A `recv` of a run. -/
theorem recvFrom_fits (h : s.Fits) (hr : Relayed R s none) {j maxPayload : Nat} {run : Run}
    {peer : Peer} {t : Int} {r : Reading} {k : IoStatus × List UInt8 → Code Unit} {file : File}
    (hj : s.runs[j]? = some run) (hrest : run.rest = .call (.readMessage peer maxPayload t) k)
    (hact : run.act = .reading r) (hfile : s.peerFile run peer = some file)
    (hneed : bytes.length ≤ r.need) (hs' : s.recvFrom bytes file = some s') : s'.Fits := by
  obtain ⟨c, g, hdoing⟩ := hr.doing hj hrest
  have hclient := hdoing.conduct.client
  rcases Phase.reads hdoing.follows.1 with ⟨hpeer, hopen, hst⟩ | ⟨l, q, rfl, hst⟩
  · rw [hdoing.peerFile_client hopen hpeer, Option.some.injEq] at hfile
    subst hfile
    rw [recvFrom_client hdoing.atClient hs']
    rw [hst, hact] at hclient
    exact h.setClient rfl (Has.length_lt hclient.1 hneed)
  · obtain ⟨i, e, b, fd, n, hhold, -⟩ := hdoing.holding (l := l) (by rw [hst, hact]; rfl)
    rw [hhold.peerFile, Option.some.injEq] at hfile
    subst hfile
    obtain ⟨-, rfl⟩ := recvFrom_conn hhold.backend hs'
    exact h.of_eq rfl

/-- A `recv` of a ping. -/
theorem pingRecv_clients (hr : Relayed R s none) {i fd : Nat} {b : Backend} {file : File}
    (hb : s.backends[i]? = some b) (hfd : b.pinged = some fd) (hfile : s.table fd = some file)
    (hs' : s.recvFrom bytes file = some s') : s'.clients = s.clients := by
  obtain ⟨-, -, -, -, n, -, -, hn, -⟩ := (hr.kept i b hb).pinged hfd
  rw [hn, Option.some.injEq] at hfile
  subst hfile
  obtain ⟨-, rfl⟩ := recvFrom_conn hb hs'
  rfl

theorem fits_step (h : Step R s s') (hr : Relayed R s none) (hs : s.Fits) : s'.Fits := by
  cases h with
  | accept =>
      intro c hc
      rcases List.mem_append.mp hc with hold | hnew
      · exact hs c hold
      · rw [List.mem_singleton.mp hnew]
        simp
  | pingSendMore | pingSendDone => exact (sendTo_fits hs _ _ _).of_eq (setPing_clients _ _ _)
  | pingRecvMore hb _ hfd hfile _ hs₁ =>
      exact hs.of_eq ((setPing_clients _ _ _).trans (pingRecv_clients hr hb hfd hfile hs₁))
  | pingRecvDone hb _ hfd hfile _ hs₁ _ hs₂ =>
      exact hs.of_eq ((setPing_clients _ _ _).trans
        ((poolStep_clients hs₂).trans (pingRecv_clients hr hb hfd hfile hs₁)))
  | pingStop hs₁ => exact hs.of_eq ((setPing_clients _ _ _).trans (poolStep_clients hs₁))
  | borrow _ _ _ _ _ hs₁ => exact State.Fits.of_eq hs (poolStep_clients hs₁ :)
  | recvMore hj hrest hact hfile hneed hs₁ | recvDone hj hrest hact hfile hneed hs₁ =>
      exact (recvFrom_fits hs hr hj hrest hact hfile hneed hs₁).of_eq rfl
  | sendMore | sendDone => exact (sendTo_fits hs _ _ _).of_eq rfl
  | clock | foreignOpen | foreignClose | answer | pool | count | close | handshake
  | handshakeFailed | startRead | startWrite | oversize | noPools | releaseNothing | release
  | stopRead | stopWrite | borrowed | borrowFailed | released => exact hs.of_eq rfl

theorem reachable_fits {opts : List BackendPool.Options} (h : (machine R opts).Reachable s) :
    s.Fits := by
  refine h.invariant_with (P := State.Fits) (fun _ => reachable_relayed) ?_
    (fun _ _ _ hr hs hstep => fits_step (step_cases hstep) hr hs)
  intro c hc
  cases hc

end InferenceRouter.Relay

namespace InferenceRouter.Loopback

open Interleaving Connection Handler Echo

/-! ## Threads for backends -/

/-- The function of the echo backend.  Longer messages have no frame. -/
def identity : Relay.Service where
  answer q := if q.length < 2 ^ 32 then q else []
  fits q := by
    split
    next h => exact h
    next => decide

structure State where
  relay : Relay.State
  /-- The thread of the `n`-th connection that pool `i` has dialled. -/
  threads : Nat → Nat → Thread := fun _ _ => {}

inductive Event where
  | process (e : Relay.Event)
  | backend (i n : Nat) (turn : Echo.Turn)

/-- The events of the process.  The bytes of a backend are its thread's. -/
def ofProcess : Relay.Event → Bool
  | .answer _ _ _ => false
  | _ => true

def State.setThread (s : State) (i n : Nat) (t : Thread) : State :=
  { s with threads := Function.update s.threads i (Function.update (s.threads i) n t) }

def step (s : State) : Event → Option State
  | .process e =>
      if ofProcess e = true then
        (Relay.step identity s.relay e).map (fun relay => { s with relay := relay })
      else none
  | .backend i n turn =>
      match s.relay.backends[i]? with
      | some b =>
          if n < b.pool.dials then
            ((s.threads i n).step (b.conns n) turn).map (fun r =>
              State.setThread { s with relay := s.relay.setConn i b n r.2 } i n r.1)
          else none
      | none => none

/-- A process with a pool for each of the given options, and echo backends. -/
def machine (opts : List BackendPool.Options) : Machine State Event where
  init := { relay := (Relay.machine identity opts).init }
  step := step

/-! ## The thread keeps to the contract -/

theorem answers_identity {qs : List (List UInt8)} (h : ∀ q ∈ qs, small q = true) :
    identity.answers qs = qs.flatMap frame := by
  refine List.flatMap_congr (fun q hq => ?_)
  have hanswer : identity.answer q = q := if_pos (lt_of_small (h q hq))
  rw [hanswer]

/-- What the thread puts out is what a backend may put out. -/
theorem answer_of_answering {c : Relay.Stream} {t : Thread} {bytes : List UInt8}
    (h : Answering (reply c bytes) t) : c.answer identity bytes = some (reply c bytes) := by
  obtain ⟨qs, howes⟩ := h.owes
  obtain ⟨rest, hrest⟩ := howes.sent
  obtain ⟨fuel, hfuel⟩ := completeFrames_append (fun q hq => lt_of_small (howes.small q hq)) rest
  have hsent : qs.flatMap frame ++ rest = c.sent := hrest
  refine if_pos ?_
  rw [← hsent, hfuel, Relay.Service.answers_append, answers_identity howes.small]
  exact howes.answered.trans (List.prefix_append _ _)

/-! ## What the process does to its connections -/

/-- More may have been sent on the connections there were, and new ones have no answers. -/
def Hears (s s' : Relay.State) : Prop :=
  ∀ (i : Nat) (b' : Relay.Backend), s'.backends[i]? = some b' →
    ∃ b, s.backends[i]? = some b ∧ b.pool.dials ≤ b'.pool.dials ∧ ∀ n,
      (n < b.pool.dials →
        (b.conns n).sent <+: (b'.conns n).sent ∧ (b'.conns n).answered = (b.conns n).answered) ∧
      (b.pool.dials ≤ n → n < b'.pool.dials → (b'.conns n).answered = [])

theorem hears_of_eq {s s' : Relay.State} (h : s'.backends = s.backends) : Hears s s' := by
  intro i b hb
  rw [h] at hb
  exact ⟨b, hb, le_rfl, fun n =>
    ⟨fun _ => ⟨List.prefix_rfl, rfl⟩, fun hge hlt => absurd hge hlt.not_ge⟩⟩

theorem Hears.trans {s t u : Relay.State} (h : Hears s t) (h' : Hears t u) : Hears s u := by
  intro i b₂ hb₂
  obtain ⟨b₁, hb₁, hle₁, hconn₁⟩ := h' i b₂ hb₂
  obtain ⟨b, hb, hle, hconn⟩ := h i b₁ hb₁
  refine ⟨b, hb, hle.trans hle₁, fun n => ⟨fun hlt => ?_, fun hge hlt => ?_⟩⟩
  · obtain ⟨hsent, hanswered⟩ := (hconn n).1 hlt
    obtain ⟨hsent₁, hanswered₁⟩ := (hconn₁ n).1 (hlt.trans_le hle)
    exact ⟨hsent.trans hsent₁, hanswered₁.trans hanswered⟩
  · by_cases hmid : n < b₁.pool.dials
    · exact ((hconn₁ n).1 hmid).2.trans ((hconn n).2 hge hmid)
    · exact (hconn₁ n).2 (Nat.le_of_not_lt hmid) hlt

section Hears

variable {s s' : Relay.State} {i : Nat} {b : Relay.Backend}

theorem hears_set (hb : s.backends[i]? = some b) {b' : Relay.Backend} {t : Relay.State}
    (ht : t.backends = s.backends.set i b') (hdials : b.pool.dials ≤ b'.pool.dials)
    (hold : ∀ n, n < b.pool.dials →
      (b.conns n).sent <+: (b'.conns n).sent ∧ (b'.conns n).answered = (b.conns n).answered)
    (hnew : ∀ n, b.pool.dials ≤ n → n < b'.pool.dials → (b'.conns n).answered = []) :
    Hears s t := by
  intro k x hx
  rw [ht, getElem?_set_eq b' hb] at hx
  split at hx
  next heq =>
    cases hx
    subst heq
    exact ⟨b, hb, hdials, fun n => ⟨hold n, hnew n⟩⟩
  next => exact hears_of_eq rfl k x hx

theorem hears_setConn (hb : s.backends[i]? = some b) {n : Nat} {c : Relay.Stream}
    (hsent : (b.conns n).sent <+: c.sent) (hanswered : c.answered = (b.conns n).answered) :
    Hears s (s.setConn i b n c) := by
  refine hears_set hb rfl le_rfl (fun m _ => ?_) (fun m hge hlt => absurd hge hlt.not_ge)
  by_cases hm : m = n
  · subst hm
    simpa using ⟨hsent, hanswered⟩
  · simp [Function.update_of_ne hm]

theorem hears_sendTo (asResponse : Bool) (bytes : List UInt8) (file : Relay.File) :
    Hears s (s.sendTo asResponse bytes file) := by
  simp only [Relay.State.sendTo]
  split
  next =>
    split
    next hb => exact hears_setConn hb (List.prefix_append _ _) rfl
    next => exact hears_of_eq rfl
  next =>
    split
    next => exact hears_of_eq rfl
    next => exact hears_of_eq rfl
  next => exact hears_of_eq rfl

theorem hears_recvFrom {bytes : List UInt8} {file : Relay.File}
    (h : s.recvFrom bytes file = some s') : Hears s s' := by
  simp only [Relay.State.recvFrom] at h
  split at h
  next =>
    split at h
    next hb =>
      split at h
      next =>
        cases h
        exact hears_setConn hb List.prefix_rfl rfl
      next => cases h
    next => cases h
  next =>
    split at h
    next =>
      cases h
      exact hears_of_eq rfl
    next => cases h
  next =>
    cases h
    exact hears_of_eq rfl

theorem hears_poolStep {e : BackendPool.Event} (h : s.poolStep i e = some s') : Hears s s' := by
  obtain ⟨b, v, hb, hv, rfl⟩ := Relay.poolStep_cases h
  refine hears_set hb rfl (BackendPool.dials_le_step hv) (fun n hn => ?_) (fun n hge _ => ?_)
  · simp [hn]
  · simp [Nat.not_lt.mpr hge]

theorem hears_setPing (p : Relay.Ping) : Hears s (s.setPing i p) := by
  simp only [Relay.State.setPing]
  split
  next hb =>
    exact hears_set hb rfl le_rfl (fun _ _ => ⟨List.prefix_rfl, rfl⟩)
      (fun _ hge hlt => absurd hge hlt.not_ge)
  next => exact hears_of_eq rfl

theorem hears_pingDone {ok : Bool} (h : s.pingDone i ok = some s') : Hears s s' := by
  obtain ⟨s₁, hs₁, rfl⟩ := Option.map_eq_some_iff.mp h
  exact (hears_poolStep hs₁).trans (hears_setPing _)

variable {j : Nat} {run : Relay.Run} {o : Op} {k : o.Ret → Code Unit}

theorem hears_startWrite (h : s.startWrite j run o k = some s') : Hears s s' := by
  simp only [Relay.State.startWrite] at h
  split at h
  next =>
    split at h
    next =>
      cases h
      exact hears_of_eq rfl
    next =>
      obtain ⟨r, -, rfl⟩ := Option.map_eq_some_iff.mp h
      exact hears_of_eq rfl
  next => cases h

theorem hears_borrow (h : s.borrow j run i = some s') : Hears s s' := by
  simp only [Relay.State.borrow] at h
  split at h
  next =>
    obtain ⟨s₁, hs₁, rfl⟩ := Option.map_eq_some_iff.mp h
    exact (hears_poolStep hs₁).trans (hears_of_eq rfl)
  next => cases h

theorem hears_release {fd : Int} {ok : Bool} (h : s.release j run i fd ok = some s') :
    Hears s s' := by
  simp only [Relay.State.release] at h
  split at h
  next hb _ =>
    split at h
    next =>
      cases h
      exact hears_set hb rfl le_rfl (fun _ _ => ⟨List.prefix_rfl, rfl⟩)
        (fun _ hge hlt => absurd hge hlt.not_ge)
    next => cases h
  next => cases h

theorem hears_call (h : s.call j run o k = some s') : Hears s s' := by
  cases o with
  | incInFlight | decInFlight | incCompleted | incErrored | safeClose | closeStream | readMessage =>
      cases h
      exact hears_of_eq rfl
  | writeMessage | replyErrorPlain | replyErrorTls =>
      simp only [Relay.State.call] at h
      exact hears_startWrite h
  | poolBorrow => exact hears_borrow h
  | setBorrow =>
      simp only [Relay.State.call] at h
      split at h
      next =>
        cases h
        exact hears_of_eq rfl
      next => cases h
  | poolRelease | setRelease =>
      simp only [Relay.State.call] at h
      split at h
      next =>
        cases h
        exact hears_of_eq rfl
      next => exact hears_release h
  | acceptHandshake => cases h

theorem hears_handshake {ok : Bool} (h : s.handshake j run ok o k = some s') : Hears s s' := by
  cases o with
  | acceptHandshake t =>
      cases h
      refine hears_of_eq ?_
      cases ok <;> rfl
  | _ => cases h

theorem hears_recv {r : Reading} {bytes : List UInt8} (h : s.recv j run r bytes o k = some s') :
    Hears s s' := by
  cases o with
  | readMessage peer maxPayload t =>
      simp only [Relay.State.recv] at h
      split at h
      next =>
        split at h
        next =>
          obtain ⟨s₁, hs₁, rfl⟩ := Option.map_eq_some_iff.mp h
          refine (hears_recvFrom hs₁).trans (hears_of_eq ?_)
          split <;> rfl
        next => cases h
      next => cases h
  | _ => cases h

theorem hears_send {w : Writing} {n : Nat} (h : s.send j run w n o k = some s') : Hears s s' := by
  simp only [Relay.State.send] at h
  split at h
  next =>
    split at h
    next =>
      split at h
      next =>
        split at h
        next =>
          cases h
          exact (hears_sendTo _ _ _).trans (hears_of_eq rfl)
        next =>
          obtain ⟨r, -, rfl⟩ := Option.map_eq_some_iff.mp h
          exact (hears_sendTo _ _ _).trans (hears_of_eq rfl)
      next => cases h
    next => cases h
  next => cases h

theorem hears_stop {status : IoStatus} (h : s.stop j run status o k = some s') : Hears s s' := by
  simp only [Relay.State.stop] at h
  split at h
  next =>
    split at h
    next =>
      cases h
      exact hears_of_eq rfl
    next => cases h
  next =>
    split at h
    next =>
      obtain ⟨r, -, rfl⟩ := Option.map_eq_some_iff.mp h
      exact hears_of_eq rfl
    next => cases h

theorem hears_resume (h : s.resume j run o k = some s') : Hears s s' := by
  simp only [Relay.State.resume] at h
  split at h
  next =>
    split at h
    next =>
      obtain ⟨r, -, rfl⟩ := Option.map_eq_some_iff.mp h
      exact hears_of_eq rfl
    next =>
      obtain ⟨r, -, rfl⟩ := Option.map_eq_some_iff.mp h
      exact hears_of_eq rfl
    next => cases h
  next =>
    split at h
    next =>
      obtain ⟨r, -, rfl⟩ := Option.map_eq_some_iff.mp h
      exact hears_of_eq rfl
    next => cases h
  next => cases h

theorem hears_pingSend {n : Nat} (h : s.pingSend i n = some s') : Hears s s' := by
  simp only [Relay.State.pingSend] at h
  split at h
  next =>
    split at h
    next =>
      split at h
      next =>
        split at h <;> cases h <;> exact (hears_sendTo _ _ _).trans (hears_setPing _)
      next => cases h
    next => cases h
  next => cases h

theorem hears_pingRecv {bytes : List UInt8} (h : s.pingRecv i bytes = some s') : Hears s s' := by
  simp only [Relay.State.pingRecv] at h
  split at h
  next =>
    split at h
    next =>
      split at h
      next =>
        obtain ⟨s₁, hs₁, hrest⟩ := Option.bind_eq_some_iff.mp h
        split at hrest
        next =>
          cases hrest
          exact (hears_recvFrom hs₁).trans (hears_setPing _)
        next => exact (hears_recvFrom hs₁).trans (hears_pingDone hrest)
      next => cases h
    next => cases h
  next => cases h

/-- The process itself never answers. -/
theorem hears_step {R : Relay.Service} {e : Relay.Event} (he : ofProcess e = true)
    (h : Relay.step R s e = some s') : Hears s s' := by
  cases e with
  | answer => cases he
  | clock =>
      cases h
      exact hears_of_eq rfl
  | foreignOpen | foreignClose | accept =>
      simp only [Relay.step] at h
      split at h <;> cases h
      exact hears_of_eq rfl
  | pool i e =>
      simp only [Relay.step] at h
      split at h
      next => exact hears_poolStep h
      next => cases h
  | pingSend => exact hears_pingSend h
  | pingRecv => exact hears_pingRecv h
  | pingStop =>
      simp only [Relay.step] at h
      split at h
      next => exact hears_pingDone h
      next => cases h
  | call =>
      obtain ⟨run, o, k, -, -, hf⟩ := Relay.runStep_cases h
      split at hf
      next => exact hears_call hf
      next => cases hf
  | handshake =>
      obtain ⟨run, o, k, -, -, hf⟩ := Relay.runStep_cases h
      split at hf
      next => exact hears_handshake hf
      next => cases hf
  | pick =>
      obtain ⟨run, o, k, -, -, hf⟩ := Relay.runStep_cases h
      split at hf
      next =>
        cases o with
        | setBorrow => exact hears_borrow hf
        | _ => cases hf
      next => cases hf
  | recv =>
      obtain ⟨run, o, k, -, -, hf⟩ := Relay.runStep_cases h
      split at hf
      next => exact hears_recv hf
      next => cases hf
  | send =>
      obtain ⟨run, o, k, -, -, hf⟩ := Relay.runStep_cases h
      split at hf
      next => exact hears_send hf
      next => cases hf
  | stop =>
      obtain ⟨run, o, k, -, -, hf⟩ := Relay.runStep_cases h
      split at hf
      next => exact hears_stop hf
      next => cases hf
  | resume =>
      obtain ⟨run, o, k, -, -, hf⟩ := Relay.runStep_cases h
      exact hears_resume hf

end Hears

/-! ## Runs -/

/-- The thread of every connection keeps to its answers, and threads begin with their
connections. -/
def Served (s : State) : Prop :=
  ∀ (i : Nat) (b : Relay.Backend), s.relay.backends[i]? = some b → ∀ n,
    (n < b.pool.dials → Answering (b.conns n) (s.threads i n)) ∧
      (b.pool.dials ≤ n → s.threads i n = {})

variable {s s' : State} {opts : List BackendPool.Options}

theorem answering_fresh {c : Relay.Stream} (h : c.answered = []) : Answering c {} :=
  .reading [] [] c.sent (by simp) Reading.has_start trivial rfl rfl h

theorem Served.hears (h : Served s) {relay : Relay.State} (hh : Hears s.relay relay) :
    Served { s with relay := relay } := by
  intro i b' hb'
  obtain ⟨b, hb, hle, hconn⟩ := hh i b' hb'
  intro n
  obtain ⟨hold, hnew⟩ := h i b hb n
  refine ⟨fun hlt => ?_, fun hge => hnew (hle.trans hge)⟩
  by_cases hn : n < b.pool.dials
  · obtain ⟨hsent, hanswered⟩ := (hconn n).1 hn
    exact (hold hn).heard hsent hanswered
  · have hge := Nat.le_of_not_lt hn
    show Answering (b'.conns n) (s.threads i n)
    rw [hnew hge]
    exact answering_fresh ((hconn n).2 hge hlt)

/-- A turn of a thread is an answer that the process may get. -/
theorem Served.backend (h : Served s) {i n : Nat} {b : Relay.Backend}
    (hb : s.relay.backends[i]? = some b) (hn : n < b.pool.dials) {turn : Echo.Turn} {t : Thread}
    {c : Relay.Stream} (hstep : (s.threads i n).step (b.conns n) turn = some (t, c)) :
    Served (State.setThread { s with relay := s.relay.setConn i b n c } i n t) ∧
      ∃ bytes, (b.conns n).answer identity bytes = some c := by
  obtain ⟨hanswering, bytes, rfl⟩ := ((h i b hb n).1 hn).step (Thread.step_cases hstep)
  refine ⟨?_, bytes, answer_of_answering hanswering⟩
  intro k x hx m
  rw [State.setThread, Relay.State.setConn, getElem?_set_eq _ hb] at hx
  by_cases hki : k = i
  · rw [if_pos hki, Option.some.injEq] at hx
    subst hki hx
    by_cases hmn : m = n
    · subst hmn
      simp only [State.setThread, Function.update_self]
      exact ⟨fun _ => hanswering, fun hge => absurd hn hge.not_gt⟩
    · simp only [State.setThread, Function.update_self, Function.update_of_ne hmn]
      exact h k b hb m
  · rw [if_neg hki] at hx
    simp only [State.setThread, Function.update_of_ne hki]
    exact h k x hx m

/-- The composed system refines the process with a backend that computes `identity`. -/
theorem reachable_served (h : (machine opts).Reachable s) :
    (Relay.machine identity opts).Reachable s.relay ∧ Served s := by
  refine h.invariant (P := fun s => (Relay.machine identity opts).Reachable s.relay ∧ Served s)
    ⟨.init, ?_⟩ ?_
  · intro i b hb n
    obtain ⟨o, -, rfl⟩ : ∃ o, opts[i]? = some o ∧ { opts := o } = b := by
      simpa [machine, Relay.machine] using hb
    exact ⟨fun hlt => absurd hlt (Nat.not_lt_zero n), fun _ => rfl⟩
  · rintro s (e | ⟨i, n, turn⟩) s' ⟨hrelay, hserved⟩ hstep
    · simp only [machine, step] at hstep
      split at hstep
      next hof =>
        obtain ⟨relay, hmoved, rfl⟩ := Option.map_eq_some_iff.mp hstep
        exact ⟨hrelay.step hmoved, hserved.hears (hears_step hof hmoved)⟩
      next => cases hstep
    · simp only [machine, step] at hstep
      split at hstep
      next b hb =>
        split at hstep
        next hn =>
          obtain ⟨⟨t, c⟩, hturn, rfl⟩ := Option.map_eq_some_iff.mp hstep
          obtain ⟨hafter, bytes, hanswer⟩ := hserved.backend hb hn hturn
          refine ⟨hrelay.step (e := .answer i n bytes) ?_, hafter⟩
          simp only [Relay.machine, Relay.step, hb, hanswer, Option.map_some]
          rfl
        next => cases hstep
      next => cases hstep

/-- A client of a router whose backends are echo backends has, as its response, a part of
the very frame that it has sent, and the whole of it when its request counts as completed. -/
theorem own_request_returned (opts : List BackendPool.Options) {s : State}
    (h : (machine opts).Reachable s) :
    ∀ (j : Nat) (run : Relay.Run) (client : Relay.Client), s.relay.runs[j]? = some run →
      s.relay.clients[j]? = some client →
        (client.response = [] ∨ ∃ q, client.received = frame q ∧ client.response <+: frame q) ∧
        (0 < run.tally.completed → ∃ q, client.received = frame q ∧ client.response = frame q) := by
  intro j run client hj hclient
  have hrelay := (reachable_served h).1
  -- a frame that was received has a length below 2 ^ 32, so that `identity` gives it back
  have hsame : ∀ {q}, client.received = frame q → identity.answer q = q := by
    intro q hq
    have hfits := Relay.reachable_fits hrelay client (List.mem_of_getElem? hclient)
    rw [hq, length_frame] at hfits
    exact if_pos (by omega)
  obtain ⟨c, hc, g, hg⟩ := (Relay.reachable_relayed hrelay).conduct j run hj (by simp)
  rw [hclient, Option.some.injEq] at hc
  subst hc
  constructor
  · refine hg.client.answered.part.imp_right ?_
    rintro ⟨q, hq, hpart⟩
    exact ⟨q, hq, hsame hq ▸ hpart⟩
  · intro hcompleted
    have hwhole := hg.client
    rw [hg.completed hcompleted] at hwhole
    obtain ⟨q, hq, hall⟩ := hwhole.all rfl
    exact ⟨q, hq, hsame hq ▸ hall⟩

/-- A client's request of one byte goes to the echo backend and comes back.  The backend
reads the header before the byte is there. -/
def oneEcho : List Event :=
  [.process (.accept 5 .set {}), .process (.call 0), .process (.call 0),
    .process (.recv 0 [0, 0]), .process (.recv 0 [0, 1]), .process (.recv 0 [7]),
    .process (.pick 0 0), .process (.pool 0 (.borrowLock 0)), .process (.pool 0 (.dialOk 0 6)),
    .process (.pool 0 (.incPoolCreate 0)), .process (.pool 0 (.incPoolBorrow 0)),
    .process (.resume 0), .process (.call 0), .process (.send 0 4),
    .backend 0 0 (.recv { recv := .bytes [0, 0, 0, 1] }), .process (.send 0 1),
    .backend 0 0 (.recv { recv := .bytes [7] }), .backend 0 0 (.send { send := .sent 4 }),
    .process (.call 0), .process (.recv 0 [0, 0, 0, 1]),
    .backend 0 0 (.send { send := .sent 1 }), .process (.recv 0 [7]), .process (.call 0),
    .process (.send 0 3), .process (.send 0 1), .process (.send 0 1), .process (.call 0),
    .process (.pool 0 (.sample 0)), .process (.pool 0 (.releaseLock 0 none)),
    .process (.resume 0), .process (.call 0)]

theorem own_request_returned_oneEcho : ∃ s run client,
    (machine [{}]).run oneEcho = some s ∧ s.relay.runs[0]? = some run ∧
      s.relay.clients[0]? = some client ∧ run.tally.completed = 1 ∧
      client.received = [0, 0, 0, 1, 7] ∧
      ∃ q, client.received = frame q ∧ client.response = frame q := by
  refine ⟨_, _, _, rfl, rfl, rfl, rfl, rfl, ?_⟩
  have h := own_request_returned [{}] ⟨oneEcho, rfl⟩
  exact (h 0 _ _ rfl rfl).2 (by decide)

end InferenceRouter.Loopback
