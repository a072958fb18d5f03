import InferenceRouter.Handler.Progress
import InferenceRouter.Router.Model

/-!
# Every request is settled

What a complete run of `handle_one` has done, for both overloads, with and without TLS
and whatever the calls returned: the counters, the client's descriptor, the lease and the
bytes that went to the client.

A run enters, deals with the request, counts, closes and leaves.  `Dealt` is about the
middle part, which comes in five forms (`serve_dealt`).
-/

namespace InferenceRouter.Handler

open Interleaving Connection Router

/-! ## What a trace says -/

/-- The act uses the client's descriptor. -/
def Act.onClient : Act → Bool
  | .tls _ | .closed => true
  | .reading e | .received e _ | .read e _ _ | .writing e _ | .handed e _ | .wrote e _ =>
      decide (e = .client)
  | .counted _ | .borrowed _ | .released _ _ => false

/-- The bytes that were handed to the client. -/
def clientBytes (tr : List Act) : List UInt8 :=
  tr.flatMap (fun
    | .handed .client piece => piece
    | _ => [])

def borrows (tr : List Act) : List Handle :=
  tr.filterMap (fun
    | .borrowed h => some h
    | _ => none)

def releases (tr : List Act) : List (Handle × Bool) :=
  tr.filterMap (fun
    | .released h ok => some (h, ok)
    | _ => none)

/-- The counters after a run. -/
def metricsAfter (m : Metrics) (tr : List Act) : Metrics :=
  tr.foldl (fun m a =>
    match a with
    | .counted o => m.record o
    | _ => m) m

/-- The texts of the error replies. -/
def errorReplies : List String :=
  ["ERR backend unavailable", "ERR backend write", "ERR backend read"]

/-- Everything that a run owes. -/
structure Settled (m : Metrics) (tr : List Act) : Prop where
  /-- One of `completed` and `errored` has grown by one, and nothing else has changed. -/
  metrics : metricsAfter m tr = { m with completed := m.completed + 1 } ∨
    metricsAfter m tr = { m with errored := m.errored + 1 }
  /-- The client's descriptor was closed once, and not used afterwards. -/
  closed : ∃ tr₁ tr₂, tr = tr₁ ++ .closed :: tr₂ ∧ .closed ∉ tr₁ ∧ ∀ a ∈ tr₂, a.onClient = false
  /-- Nothing is released that was not borrowed, -/
  unlent : (∀ h ∈ borrows tr, h.fd < 0) → releases tr = []
  /-- and what was borrowed is released once, as good if the backend took the request and
  gave a response. -/
  lent : ∀ h ∈ borrows tr, 0 ≤ h.fd → ∃ ok, releases tr = [(h, ok)] ∧
    (ok = true ↔ .wrote (.backend h.fd) .kOk ∈ tr ∧ ∃ resp, .read (.backend h.fd) .kOk resp ∈ tr)
  /-- The client was given a part of one frame: the response, or an error if there is
  none. -/
  bytes : ∃ payload, clientBytes tr <+: frame payload ∧
    ((∃ fd, .read (.backend fd) .kOk payload ∈ tr) ∨
      ((∀ fd resp, .read (.backend fd) .kOk resp ∉ tr) ∧
        ∃ msg ∈ errorReplies, payload = msg.toUTF8.toList))
  /-- Not before its request was read. -/
  requestFirst : ∀ tr₁ piece tr₂, tr = tr₁ ++ .handed .client piece :: tr₂ →
    ∃ req, .read .client .kOk req ∈ tr₁
  /-- The run is counted as completed if the whole response was handed over. -/
  completed : .counted .incCompleted ∈ tr ↔
    ∃ fd resp, .read (.backend fd) .kOk resp ∈ tr ∧ clientBytes tr = frame resp

/-! ## Parts of a trace -/

section Parts

variable (e : End) (result : IoStatus × List UInt8) (pieces : List (List UInt8))
  (data : List UInt8) (status : IoStatus) (tr tr' : List Act)

@[simp] theorem clientBytes_append : clientBytes (tr ++ tr') = clientBytes tr ++ clientBytes tr' :=
  List.flatMap_append

@[simp] theorem borrows_append : borrows (tr ++ tr') = borrows tr ++ borrows tr' :=
  List.filterMap_append

@[simp] theorem releases_append : releases (tr ++ tr') = releases tr ++ releases tr' :=
  List.filterMap_append

@[simp] theorem metricsAfter_append (m : Metrics) :
    metricsAfter m (tr ++ tr') = metricsAfter (metricsAfter m tr) tr' :=
  List.foldl_append

@[simp] theorem clientBytes_readActs : clientBytes (readActs e result pieces) = [] := by
  simp [clientBytes, readActs, List.flatMap_map]

@[simp] theorem clientBytes_writeActs_client :
    clientBytes (writeActs .client data status pieces) = pieces.flatten := by
  simp [clientBytes, writeActs, List.flatMap_map, List.flatMap_id']

@[simp] theorem clientBytes_writeActs_backend (fd : Int) :
    clientBytes (writeActs (.backend fd) data status pieces) = [] := by
  simp [clientBytes, writeActs, List.flatMap_map]

@[simp] theorem borrows_readActs : borrows (readActs e result pieces) = [] := by
  simp [borrows, readActs, List.filterMap_map]

@[simp] theorem borrows_writeActs : borrows (writeActs e data status pieces) = [] := by
  simp [borrows, writeActs, List.filterMap_map]

@[simp] theorem releases_readActs : releases (readActs e result pieces) = [] := by
  simp [releases, readActs, List.filterMap_map]

@[simp] theorem releases_writeActs : releases (writeActs e data status pieces) = [] := by
  simp [releases, writeActs, List.filterMap_map]

@[simp] theorem clientBytes_nil : clientBytes [] = [] := rfl

@[simp] theorem clientBytes_counted (o : Op) :
    clientBytes (.counted o :: tr) = clientBytes tr := rfl

@[simp] theorem clientBytes_borrowed (h : Handle) :
    clientBytes (.borrowed h :: tr) = clientBytes tr := rfl

@[simp] theorem clientBytes_released (h : Handle) (ok : Bool) :
    clientBytes (.released h ok :: tr) = clientBytes tr := rfl

@[simp] theorem borrows_nil : borrows [] = [] := rfl

@[simp] theorem borrows_counted (o : Op) : borrows (.counted o :: tr) = borrows tr := rfl

@[simp] theorem borrows_borrowed (h : Handle) : borrows (.borrowed h :: tr) = h :: borrows tr := rfl

@[simp] theorem borrows_released (h : Handle) (ok : Bool) :
    borrows (.released h ok :: tr) = borrows tr := rfl

@[simp] theorem releases_nil : releases [] = [] := rfl

@[simp] theorem releases_counted (o : Op) : releases (.counted o :: tr) = releases tr := rfl

@[simp] theorem releases_borrowed (h : Handle) : releases (.borrowed h :: tr) = releases tr := rfl

@[simp] theorem releases_released (h : Handle) (ok : Bool) :
    releases (.released h ok :: tr) = (h, ok) :: releases tr := rfl

@[simp] theorem metricsAfter_nil (m : Metrics) : metricsAfter m [] = m := rfl

@[simp] theorem metricsAfter_counted (m : Metrics) (o : Op) :
    metricsAfter m (.counted o :: tr) = metricsAfter (m.record o) tr := rfl

@[simp] theorem clientBytes_tls (calls : List TlsCall) : clientBytes (calls.map .tls) = [] := by
  simp [clientBytes, List.flatMap_map]

@[simp] theorem borrows_tls (calls : List TlsCall) : borrows (calls.map .tls) = [] := by
  simp [borrows, List.filterMap_map]

@[simp] theorem releases_tls (calls : List TlsCall) : releases (calls.map .tls) = [] := by
  simp [releases, List.filterMap_map]

@[simp] theorem clientBytes_closed : clientBytes (.closed :: tr) = clientBytes tr := rfl

@[simp] theorem borrows_closed : borrows (.closed :: tr) = borrows tr := rfl

@[simp] theorem releases_closed : releases (.closed :: tr) = releases tr := rfl

@[simp] theorem metricsAfter_closed (m : Metrics) :
    metricsAfter m (.closed :: tr) = metricsAfter m tr := rfl

/-- A part without counter updates. -/
theorem metricsAfter_eq (m : Metrics) {tr : List Act} (h : ∀ o, Act.counted o ∉ tr) :
    metricsAfter m tr = m := by
  induction tr with
  | nil => rfl
  | cons a tr ih =>
      have htail := ih (fun o ho => h o (List.mem_cons_of_mem _ ho))
      cases a with
      | counted o => exact absurd List.mem_cons_self (h o)
      | _ => exact htail

@[simp] theorem mem_readActs {a : Act} : a ∈ readActs e result pieces ↔
    a = .reading e ∨ (∃ piece ∈ pieces, a = .received e piece) ∨ a = .read e result.1 result.2 := by
  simp [readActs, eq_comm]

@[simp] theorem mem_writeActs {a : Act} : a ∈ writeActs e data status pieces ↔
    a = .writing e data ∨ (∃ piece ∈ pieces, a = .handed e piece) ∨ a = .wrote e status := by
  simp [writeActs, eq_comm]

end Parts

/-! ## Dealing with the request -/

/-- What the part of a run between entering and counting has done.  `whole` says that the
client has the whole response. -/
structure Dealt (tr : List Act) (whole : Bool) : Prop where
  uncounted : ∀ o, Act.counted o ∉ tr
  unclosed : Act.closed ∉ tr
  unlent : (∀ h ∈ borrows tr, h.fd < 0) → releases tr = []
  lent : ∀ h ∈ borrows tr, 0 ≤ h.fd → ∃ ok, releases tr = [(h, ok)] ∧
    (ok = true ↔ .wrote (.backend h.fd) .kOk ∈ tr ∧ ∃ resp, .read (.backend h.fd) .kOk resp ∈ tr)
  bytes : ∃ payload, clientBytes tr <+: frame payload ∧
    ((∃ fd, .read (.backend fd) .kOk payload ∈ tr) ∨
      ((∀ fd resp, .read (.backend fd) .kOk resp ∉ tr) ∧
        ∃ msg ∈ errorReplies, payload = msg.toUTF8.toList))
  requestFirst : (∀ piece, .handed .client piece ∉ tr) ∨ ∃ before after req, tr = before ++ after ∧
    .read .client .kOk req ∈ before ∧ ∀ piece, .handed .client piece ∉ before
  whole : whole = true ↔
    ∃ fd resp, .read (.backend fd) .kOk resp ∈ tr ∧ clientBytes tr = frame resp

section Dealt

variable {out req resp msg : List UInt8} {status st : IoStatus} {h : Handle}
  {ps ps₁ ps₂ ps₃ : List (List UInt8)}

/-- The request was not read. -/
theorem dealt_unread : Dealt (readActs .client (status, out) ps) false where
  uncounted := by simp
  unclosed := by simp
  unlent := by simp
  lent := by simp
  bytes := ⟨"ERR backend unavailable".toUTF8.toList, by simp,
    .inr ⟨by simp, _, List.mem_cons_self, rfl⟩⟩
  requestFirst := .inl (by simp)
  whole := by simp

/-- There was no connection to a backend. -/
theorem dealt_unlent (hfd : h.fd < 0)
    (hps : ps₁.flatten <+: frame "ERR backend unavailable".toUTF8.toList) :
    Dealt (readActs .client (.kOk, req) ps ++ ([.borrowed h] ++
      writeActs .client "ERR backend unavailable".toUTF8.toList st ps₁)) false where
  uncounted := by simp
  unclosed := by simp
  unlent := by simp
  lent := by
    simp
    omega
  bytes := ⟨"ERR backend unavailable".toUTF8.toList, by simpa using hps,
    .inr ⟨by simp, _, List.mem_cons_self, rfl⟩⟩
  requestFirst := .inr ⟨readActs .client (.kOk, req) ps, _, req, rfl, by simp, by simp⟩
  whole := by simp

/-- The backend did not take the request. -/
theorem dealt_unsent (hfd : 0 ≤ h.fd) (hst : status ≠ .kOk)
    (hps : ps₂.flatten <+: frame "ERR backend write".toUTF8.toList) :
    Dealt (readActs .client (.kOk, req) ps ++ ([.borrowed h] ++
      (writeActs (.backend h.fd) req status ps₁ ++
        (writeActs .client "ERR backend write".toUTF8.toList st ps₂ ++ [.released h false])))) false
    where
  uncounted := by simp
  unclosed := by simp
  unlent := by
    simp
    omega
  lent := by simp [hst.symm]
  bytes := ⟨"ERR backend write".toUTF8.toList, by simpa using hps,
    .inr ⟨by simp, _, List.mem_cons_of_mem _ List.mem_cons_self, rfl⟩⟩
  requestFirst := .inr ⟨readActs .client (.kOk, req) ps, _, req, rfl, by simp, by simp⟩
  whole := by simp

/-- The backend gave no response. -/
theorem dealt_unanswered (hfd : 0 ≤ h.fd) (hst : status ≠ .kOk)
    (hps : ps₃.flatten <+: frame "ERR backend read".toUTF8.toList) :
    Dealt (readActs .client (.kOk, req) ps ++ ([.borrowed h] ++
      (writeActs (.backend h.fd) req .kOk ps₁ ++ (readActs (.backend h.fd) (status, out) ps₂ ++
        (writeActs .client "ERR backend read".toUTF8.toList st ps₃ ++ [.released h false]))))) false
    where
  uncounted := by simp
  unclosed := by simp
  unlent := by
    simp
    omega
  lent := by simp [hst.symm]
  bytes := ⟨"ERR backend read".toUTF8.toList, by simpa using hps,
    .inr ⟨by simp [hst.symm], _, List.mem_cons_of_mem _ (List.mem_cons_of_mem _ List.mem_cons_self),
      rfl⟩⟩
  requestFirst := .inr ⟨readActs .client (.kOk, req) ps, _, req, rfl, by simp, by simp⟩
  whole := by simp [hst.symm]

/-- The response was written, to its end or not. -/
theorem dealt_answered (ps₁ ps₂ : List (List UInt8)) (hfd : 0 ≤ h.fd)
    (hps : ps₃.flatten <+: frame resp) (hst : status = .kOk ↔ ps₃.flatten = frame resp) :
    Dealt (readActs .client (.kOk, req) ps ++ ([.borrowed h] ++
      (writeActs (.backend h.fd) req .kOk ps₁ ++ (readActs (.backend h.fd) (.kOk, resp) ps₂ ++
        (writeActs .client resp status ps₃ ++ [.released h true]))))) (decide (status = .kOk)) where
  uncounted := by simp
  unclosed := by simp
  unlent := by
    simp
    omega
  lent := by simp
  bytes := ⟨resp, by simpa using hps, .inl ⟨h.fd, by simp⟩⟩
  requestFirst := .inr ⟨readActs .client (.kOk, req) ps, _, req, rfl, by simp, by simp⟩
  whole := by simp [hst]

end Dealt

/-! ## Entering, counting, closing and leaving -/

/-- What a run does after it has dealt with the request. -/
def leaveActs (o : Op) (before : List TlsCall) : List Act :=
  .counted o :: (before.map .tls ++ [.closed, .counted .decInFlight])

/-- A piece for the client comes after whatever comes before all of them. -/
theorem mem_before {before after tr₁ tr₂ : List Act} {piece : List UInt8} {a : Act}
    (ha : a ∈ before) (hbefore : ∀ piece, .handed .client piece ∉ before)
    (h : before ++ after = tr₁ ++ .handed .client piece :: tr₂) : a ∈ tr₁ := by
  rcases List.append_eq_append_iff.mp h with ⟨rest, rfl, -⟩ | ⟨rest, hrest, hafter⟩
  · exact List.mem_append_left _ ha
  · cases rest with
    | nil =>
        rw [hrest, List.append_nil] at ha
        exact ha
    | cons b rest =>
        cases hafter
        exact absurd (by rw [hrest]; simp) (hbefore piece)

@[simp] theorem metricsAfter_tls (m : Metrics) (calls : List TlsCall) :
    metricsAfter m (calls.map .tls) = m :=
  metricsAfter_eq m (by simp)

theorem Dealt.settled {tr : List Act} {whole : Bool} (h : Dealt tr whole) (m : Metrics)
    (calls before : List TlsCall) :
    Settled m (.counted .incInFlight :: (calls.map .tls ++ (tr ++
      leaveActs (if whole = true then .incCompleted else .incErrored) before))) := by
  have hcount := h.uncounted
  constructor
  case metrics =>
    have htr : ∀ m, metricsAfter m tr = m := fun m => metricsAfter_eq m hcount
    simp only [leaveActs, metricsAfter_counted, metricsAfter_append, metricsAfter_tls, htr,
      metricsAfter_closed]
    cases whole with
    | true =>
        refine .inl ?_
        simp [Metrics.record]
    | false =>
        refine .inr ?_
        simp [Metrics.record]
  case closed =>
    refine ⟨.counted .incInFlight :: (calls.map .tls ++ (tr ++
      (.counted (if whole = true then .incCompleted else .incErrored) :: before.map .tls))),
      [.counted .decInFlight], ?_, ?_, ?_⟩
    · simp [leaveActs]
    · simp [h.unclosed]
    · simp [Act.onClient]
  case unlent => simpa [leaveActs] using h.unlent
  case lent => simpa [leaveActs] using h.lent
  case bytes => simpa [leaveActs] using h.bytes
  case requestFirst =>
    intro tr₁ piece tr₂ heq
    rcases h.requestFirst with hnone | ⟨first, rest, req, rfl, hmem, hfirst⟩
    · have hmem : Act.handed .client piece ∈ tr₁ ++ .handed .client piece :: tr₂ := by simp
      rw [← heq] at hmem
      simp [leaveActs, hnone] at hmem
    · have hsplit : (.counted .incInFlight :: (calls.map .tls ++ first)) ++ (rest ++
          leaveActs (if whole = true then .incCompleted else .incErrored) before) =
          tr₁ ++ .handed .client piece :: tr₂ := by
        rw [← heq]
        simp
      exact ⟨req, mem_before (by simp [hmem]) (by simp [hfirst]) hsplit⟩
  case completed =>
    have hwhole := h.whole
    cases whole with
    | true => simpa [leaveActs, hcount] using hwhole
    | false => simpa [leaveActs, hcount] using hwhole

/-- A run that ends with its handshake. -/
theorem settled_unshaken (m : Metrics) (calls : List TlsCall) :
    Settled m (.counted .incInFlight :: (calls.map .tls ++
      [.closed, .counted .incErrored, .counted .decInFlight])) where
  metrics := by
    refine .inr ?_
    simp [Metrics.record]
  closed := ⟨.counted .incInFlight :: calls.map .tls,
    [.counted .incErrored, .counted .decInFlight], by simp, by simp, by simp [Act.onClient]⟩
  unlent := by simp
  lent := by simp
  bytes := ⟨"ERR backend unavailable".toUTF8.toList, by simp,
    .inr ⟨by simp, _, List.mem_cons_self, rfl⟩⟩
  requestFirst := by
    intro tr₁ piece tr₂ heq
    have hmem : Act.handed .client piece ∈ tr₁ ++ .handed .client piece :: tr₂ := by simp
    rw [← heq] at hmem
    simp at hmem
  completed := by simp

/-! ## Runs -/

section Runs

variable {β : Type} {L : Lender β} {w w' : World β} {acts tr : List Act} {t : Transport}
  {l : Lending} {opts : HandlerOptions}

theorem World.readMessage_acts {peer : Peer} {maxPayload : Nat} {timeoutMs : Int}
    {result : IoStatus × List UInt8}
    (h : w.readMessage peer maxPayload timeoutMs = some (result, acts, w')) :
    ∃ pieces, acts = readActs peer.end result pieces := by
  simp only [World.readMessage] at h
  repeat' split at h
  all_goals cases h
  all_goals exact ⟨_, rfl⟩

/-- What `write_message` hands over. -/
theorem World.writeMessage_acts {peer : Peer} {data : List UInt8} {timeoutMs : Int}
    {status : IoStatus} (h : w.writeMessage peer data timeoutMs = some (status, acts, w')) :
    ∃ pieces, acts = writeActs peer.end data status pieces ∧ pieces.flatten <+: frame data ∧
      (status = .kOk ↔ pieces.flatten = frame data) := by
  have hplain : ∀ {turns : List WriteTurn} {status : IoStatus} {pieces : List (List UInt8)},
      writeCall data (turns.map (WriteTurn.outcome timeoutMs)) = some (status, pieces) →
      pieces.flatten <+: frame data ∧ (status = .kOk ↔ pieces.flatten = frame data) := by
    intro turns status pieces hcall
    refine writeCall_handed ?_ hcall
    intro status hmem
    obtain ⟨t, -, ht⟩ := List.mem_map.mp hmem
    exact WriteTurn.outcome_stop ht
  simp only [World.writeMessage] at h
  repeat' split at h
  all_goals cases h
  next hcall => exact ⟨_, rfl, hplain hcall⟩
  next hcall =>
    refine ⟨_, rfl, writeCall_handed ?_ hcall⟩
    intro status hmem
    obtain ⟨tries, -, ht⟩ := List.mem_map.mp hmem
    exact pumpSsl_stop ht
  next hcall => exact ⟨_, rfl, hplain hcall⟩

/-- What the calls of a transport do. -/
structure Transport.Sound (L : Lender β) (t : Transport) : Prop where
  peer : t.peer.end = .client
  reply : ∀ msg timeoutMs w acts w', (t.reply msg timeoutMs).run (World.answer L) w =
    some ((), acts, w') → ∃ status pieces,
      acts = writeActs .client msg.toUTF8.toList status pieces ∧
      pieces.flatten <+: frame msg.toUTF8.toList
  close : ∀ w acts w', t.close.run (World.answer L) w = some ((), acts, w') →
    ∃ before : List TlsCall, acts = before.map .tls ++ [.closed]

theorem World.replyError_acts {peer : Peer} {msg : String} {timeoutMs : Int} {r : Unit}
    (h : w.replyError peer msg timeoutMs = some (r, acts, w')) :
    ∃ status pieces, acts = writeActs peer.end msg.toUTF8.toList status pieces ∧
      pieces.flatten <+: frame msg.toUTF8.toList := by
  simp only [World.replyError] at h
  split at h
  next status acts' w₁ hwrite =>
    cases h
    obtain ⟨pieces, rfl, hin, -⟩ := World.writeMessage_acts hwrite
    exact ⟨status, pieces, rfl, hin⟩
  next => cases h

theorem Transport.plain_sound (L : Lender β) : Transport.plain.Sound L where
  peer := rfl
  reply msg timeoutMs w acts w' h := by
    simp only [Transport.plain, replyErrorPlain, Prog.run_perform] at h
    exact World.replyError_acts h
  close w acts w' h := by
    rw [Transport.plain, safeClose, Prog.run_perform] at h
    cases h
    exact ⟨[], rfl⟩

theorem Transport.tls_sound (L : Lender β) : Transport.tls.Sound L where
  peer := rfl
  reply msg timeoutMs w acts w' h := by
    simp only [Transport.tls, replyErrorTls, Prog.run_perform] at h
    exact World.replyError_acts h
  close w acts w' h := by
    rw [Transport.tls, closeStream, Prog.run_perform] at h
    cases h
    exact ⟨[.shutdown, .free], rfl⟩

/-- What the calls of a lending do.  `P` is what is known of the handles it lends. -/
structure Lending.Sound (L : Lender β) (l : Lending) (P : Handle → Prop) : Prop where
  borrow : ∀ w h acts w', l.borrow.run (World.answer L) w = some (h, acts, w') →
    P h ∧ acts = [.borrowed h]
  release : ∀ h ok w acts w', P h → (l.release h ok).run (World.answer L) w = some ((), acts, w') →
    acts = [.released h ok]

theorem World.release_acts {h : Handle} {ok : Bool} {r : Unit}
    (hrel : w.release L h ok = some (r, acts, w')) : acts = [.released h ok] := by
  simp only [World.release] at hrel
  split at hrel
  next =>
    cases hrel
    rfl
  next => cases hrel

theorem Lending.pool_sound (L : Lender β) : Lending.pool.Sound L (fun h => h.poolIndex = 0) where
  borrow w h acts w' hrun := by
    obtain ⟨fd, acts₁, w₁, more, hfd, hret, rfl⟩ := Prog.run_bind_iff.mp hrun
    cases hret
    rw [poolBorrow, Prog.run_perform] at hfd
    simp only [World.answer, World.poolBorrow] at hfd
    split at hfd
    next =>
      cases hfd
      exact ⟨rfl, rfl⟩
    next => cases hfd
  release h ok w acts w' hP hrun := by
    simp only [Lending.pool, poolRelease, Prog.run_perform] at hrun
    have hacts := World.release_acts hrun
    obtain ⟨fd, index⟩ := h
    cases hP
    exact hacts

theorem Lending.set_sound (L : Lender β) : Lending.set.Sound L (fun _ => True) where
  borrow w h acts w' hrun := by
    rw [Lending.set, setBorrow, Prog.run_perform] at hrun
    simp only [World.answer, World.setBorrow] at hrun
    split at hrun
    next =>
      cases hrun
      exact ⟨trivial, rfl⟩
    next => cases hrun
  release h ok w acts w' _ hrun := by
    simp only [Lending.set, setRelease, Prog.run_perform] at hrun
    exact World.release_acts hrun

/-- Counting, closing and leaving. -/
theorem Transport.Sound.leave (ht : t.Sound L) {o : Op} {count : Code Unit}
    (hcount : ∀ w : World β, count.run (World.answer L) w = some ((), [.counted o], w))
    (h : (do count; t.close; decInFlight : Code Unit).run (World.answer L) w = some ((), tr, w')) :
    ∃ before, tr = leaveActs o before := by
  obtain ⟨⟨⟩, acts₁, w₁, more, hrun, h₁, rfl⟩ := Prog.run_bind_iff.mp h
  obtain ⟨⟨⟩, acts₂, w₂, more, hclose, h₂, rfl⟩ := Prog.run_bind_iff.mp h₁
  rw [hcount] at hrun
  cases hrun
  obtain ⟨before, rfl⟩ := ht.close _ _ _ hclose
  rw [decInFlight, Prog.run_perform] at h₂
  cases h₂
  exact ⟨before, by simp [leaveActs]⟩

theorem Transport.Sound.fails (ht : t.Sound L)
    (h : (fail t).run (World.answer L) w = some ((), tr, w')) :
    ∃ before, tr = leaveActs .incErrored before :=
  ht.leave (fun w => by rw [incErrored, Prog.run_perform]; rfl) h

/-- From the backend write on. -/
theorem exchange_dealt {P : Handle → Prop} (ht : t.Sound L) (hl : l.Sound L P) {handle : Handle}
    (hfd : 0 ≤ handle.fd) (hP : P handle) {req : List UInt8} (ps : List (List UInt8))
    (h : (exchange t l opts handle req).run (World.answer L) w = some ((), tr, w')) :
    ∃ front whole before,
      Dealt (readActs .client (.kOk, req) ps ++ ([.borrowed handle] ++ front)) whole ∧
      tr = front ++ leaveActs (if whole = true then .incCompleted else .incErrored) before := by
  obtain ⟨wr, acts₁, w₁, more, hwrite, h₁, rfl⟩ := Prog.run_bind_iff.mp h
  rw [writeMessage, Prog.run_perform] at hwrite
  obtain ⟨ps₁, rfl, -, -⟩ := World.writeMessage_acts hwrite
  split at h₁
  next hwr =>
    obtain ⟨⟨⟩, acts₂, w₂, more, hreply, h₂, rfl⟩ := Prog.run_bind_iff.mp h₁
    obtain ⟨st, ps₂, rfl, hin⟩ := ht.reply _ _ _ _ _ hreply
    obtain ⟨⟨⟩, acts₃, w₃, more, hrelease, h₃, rfl⟩ := Prog.run_bind_iff.mp h₂
    cases hl.release _ _ _ _ _ hP hrelease
    obtain ⟨before, rfl⟩ := ht.fails h₃
    exact ⟨_, false, before, dealt_unsent hfd hwr hin, by simp only [List.append_assoc]; rfl⟩
  next hwr =>
    rw [ne_eq, not_not] at hwr
    subst hwr
    obtain ⟨⟨rr, resp⟩, acts₂, w₂, more, hread, h₂, rfl⟩ := Prog.run_bind_iff.mp h₁
    rw [readMessage, Prog.run_perform] at hread
    obtain ⟨ps₂, rfl⟩ := World.readMessage_acts hread
    simp only at h₂
    split at h₂
    next hrr =>
      obtain ⟨⟨⟩, acts₃, w₃, more, hreply, h₃, rfl⟩ := Prog.run_bind_iff.mp h₂
      obtain ⟨st, ps₃, rfl, hin⟩ := ht.reply _ _ _ _ _ hreply
      obtain ⟨⟨⟩, acts₄, w₄, more, hrelease, h₄, rfl⟩ := Prog.run_bind_iff.mp h₃
      cases hl.release _ _ _ _ _ hP hrelease
      obtain ⟨before, rfl⟩ := ht.fails h₄
      exact ⟨_, false, before, dealt_unanswered hfd hrr hin, by simp only [List.append_assoc]; rfl⟩
    next hrr =>
      rw [ne_eq, not_not] at hrr
      subst hrr
      obtain ⟨cw, acts₃, w₃, more, hwrite, h₃, rfl⟩ := Prog.run_bind_iff.mp h₂
      rw [writeMessage, Prog.run_perform] at hwrite
      obtain ⟨ps₃, rfl, hin, hwhole⟩ := World.writeMessage_acts hwrite
      rw [ht.peer]
      obtain ⟨⟨⟩, acts₄, w₄, more, hrelease, h₄, rfl⟩ := Prog.run_bind_iff.mp h₃
      cases hl.release _ _ _ _ _ hP hrelease
      split at h₄
      next hcw =>
        obtain ⟨before, rfl⟩ := ht.fails h₄
        refine ⟨_, _, before, dealt_answered ps₁ ps₂ hfd hin hwhole, ?_⟩
        simp only [List.append_assoc, hcw, decide_false, Bool.false_eq_true, if_false]
        rfl
      next hcw =>
        rw [ne_eq, not_not] at hcw
        obtain ⟨before, rfl⟩ :=
          ht.leave (fun w => by rw [incCompleted, Prog.run_perform]; rfl) h₄
        refine ⟨_, _, before, dealt_answered ps₁ ps₂ hfd hin hwhole, ?_⟩
        simp only [List.append_assoc, hcw, decide_true, if_true]
        rfl

/-- A complete run of the text, from the request on. -/
theorem serve_dealt {P : Handle → Prop} (ht : t.Sound L) (hl : l.Sound L P)
    (h : (serve t l opts).run (World.answer L) w = some ((), tr, w')) :
    ∃ front whole before, Dealt front whole ∧ tr = front ++
      leaveActs (if whole = true then .incCompleted else .incErrored) before := by
  obtain ⟨⟨r, req⟩, acts₁, w₁, more, hread, h₁, rfl⟩ := Prog.run_bind_iff.mp h
  rw [readMessage, Prog.run_perform] at hread
  obtain ⟨ps, rfl⟩ := World.readMessage_acts hread
  rw [ht.peer]
  simp only at h₁
  split at h₁
  next hr =>
    obtain ⟨before, rfl⟩ := ht.fails h₁
    exact ⟨_, false, before, dealt_unread, rfl⟩
  next hr =>
    rw [ne_eq, not_not] at hr
    subst hr
    obtain ⟨handle, acts₂, w₂, more, hborrow, h₂, rfl⟩ := Prog.run_bind_iff.mp h₁
    obtain ⟨hP, rfl⟩ := hl.borrow _ _ _ _ hborrow
    split at h₂
    next hfd =>
      obtain ⟨⟨⟩, acts₃, w₃, more, hreply, h₃, rfl⟩ := Prog.run_bind_iff.mp h₂
      obtain ⟨st, ps₁, rfl, hin⟩ := ht.reply _ _ _ _ _ hreply
      obtain ⟨before, rfl⟩ := ht.fails h₃
      exact ⟨_, false, before, dealt_unlent hfd hin, by simp only [List.append_assoc]; rfl⟩
    next hfd =>
      obtain ⟨front, whole, before, hdealt, rfl⟩ :=
        exchange_dealt ht hl (Int.not_lt.mp hfd) hP ps h₂
      exact ⟨_, whole, before, hdealt, by simp⟩

/-- A complete run of `handle_one`. -/
theorem handleOne_settled {P : Handle → Prop} (hl : l.Sound L P)
    (h : (handleOne l opts).run (World.answer L) w = some ((), tr, w')) (m : Metrics) :
    Settled m tr := by
  obtain ⟨⟨⟩, acts₁, w₁, more, henter, h₁, rfl⟩ := Prog.run_bind_iff.mp h
  rw [incInFlight, Prog.run_perform] at henter
  cases henter
  split at h₁
  next =>
    obtain ⟨front, whole, before, hdealt, rfl⟩ := serve_dealt (Transport.plain_sound L) hl h₁
    exact hdealt.settled m [] before
  next =>
    obtain ⟨ok, acts₂, w₂, more, hshake, h₂, rfl⟩ := Prog.run_bind_iff.mp h₁
    rw [acceptHandshake, Prog.run_perform] at hshake
    simp only [World.answer, World.acceptHandshake] at hshake
    split at hshake
    next => cases hshake
    next hs rest hshakes =>
      split at hshake
      next => cases hshake
      next calls ok hcalls =>
        cases hshake
        cases ok with
        | false =>
            obtain ⟨⟨⟩, acts₃, w₃, more, hcount, h₃, rfl⟩ := Prog.run_bind_iff.mp h₂
            rw [incErrored, Prog.run_perform] at hcount
            cases hcount
            rw [decInFlight, Prog.run_perform] at h₃
            cases h₃
            simpa using settled_unshaken m calls
        | true =>
            obtain ⟨front, whole, before, hdealt, rfl⟩ :=
              serve_dealt (Transport.tls_sound L) hl h₂
            simpa using hdealt.settled m calls before

end Runs

/-- Both overloads settle the request, for every lender of connections, all options and
every answer to every call.  They return if the calls do. -/
theorem handle_one_settles {β : Type} (L : Lender β) (opts : HandlerOptions) (m : Metrics)
    (w : World β) :
    (∀ tr w', (handleOnePool opts).run (World.answer L) w = some ((), tr, w') → Settled m tr) ∧
    (∀ tr w', (handleOneSet opts).run (World.answer L) w = some ((), tr, w') → Settled m tr) ∧
    (w.Answered opts →
      (L.Lends (fun h => { fd := h.fd }) w.lender →
        (handleOnePool opts).Returns (World.answer L) w) ∧
      (L.Lends id w.lender → (handleOneSet opts).Returns (World.answer L) w)) := by
  rw [handleOnePool_eq, handleOneSet_eq]
  refine ⟨?_, ?_, fun hw => ⟨?_, ?_⟩⟩
  · intro tr w' h
    exact handleOne_settled (Lending.pool_sound L) h m
  · intro tr w' h
    exact handleOne_settled (Lending.set_sound L) h m
  · intro hl
    exact handleOne_returns hw (Lending.pool_live hl)
  · intro hl
    exact handleOne_returns hw (Lending.set_live hl)

/-- A backend that is always there. -/
def steadyLender : Lender Unit where
  borrow _ := some ({ fd := 7 }, ())
  release _ _ _ := some ()

/-- A message of one byte goes each way, and the client gets its response in three pieces. -/
def tlsExchange : World Unit where
  handshakes := [{ accept := [{ result := .want }, { result := .done () }] }]
  reads := [.tls [[{ result := .done [0, 0, 0, 1] }], [{ result := .done [5] }]]]
  writes := [.tls [[{ result := .done 3 }], [{ result := .want }, { result := .done 1 }],
    [{ result := .done 1 }], [{ result := .zeroReturn }]]]
  backendReads := [[{ recv := .bytes [0] }, { recv := .bytes [0, 0, 1] }, { recv := .bytes [6] }]]
  backendWrites := [[{ send := .failed .eintr }, { send := .sent 4 }, { send := .sent 1 },
    { send := .failed .epipe }]]
  lender := ()

theorem writeCall_returns {data : List UInt8} {turns : List (Option (Outcome Nat))}
    (h : ((Writing.header 0).loop data turns).isSome) : (writeCall data turns).isSome := by
  by_cases hsize : 0xFFFFFFFF < data.length
  · simp [writeCall, Writing.start, hsize]
  · simpa [writeCall, Writing.start, hsize] using h

theorem tlsExchange_answered : tlsExchange.Answered { serverTls := true } where
  handshakes _ := ⟨_, _, rfl, rfl⟩
  reads := ⟨_, _, rfl, rfl, by decide⟩
  writes := by
    refine ⟨_, _, rfl, rfl, fun data => writeCall_returns ?_⟩
    match data with
    | [] | [b] | b :: c :: data =>
        simp [ClientWrite.outcomes, pumpSsl, Writing.loop, Writing.turn, Writing.need, Writing.send]
  backendReads := ⟨_, _, rfl, by decide⟩
  backendWrites := by
    refine ⟨_, _, rfl, fun data => writeCall_returns ?_⟩
    match data with
    | [] | [b] | b :: c :: data =>
        simp [WriteTurn.outcome, Writing.loop, Writing.turn, Writing.need, Writing.send]

theorem handle_one_settles_tlsExchange : ∃ tr w',
    (handleOneSet { serverTls := true }).run (World.answer steadyLender) tlsExchange =
      some ((), tr, w') ∧
    (handleOnePool { serverTls := true }).Returns (World.answer steadyLender) tlsExchange ∧
    clientBytes tr = [0, 0, 0, 1, 6] ∧ Settled {} tr := by
  obtain ⟨hpool, hset, hreturns⟩ :=
    handle_one_settles steadyLender { serverTls := true } {} tlsExchange
  obtain ⟨hpool', hset'⟩ := hreturns tlsExchange_answered
  refine ⟨_, _, rfl, hpool' ⟨_, _, rfl, fun _ _ => rfl⟩, rfl, hset _ _ rfl⟩

end InferenceRouter.Handler
