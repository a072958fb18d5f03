import InferenceRouter.Connection.Turns
import InferenceRouter.Interleaving.Machine

/-!
# The socket reader and the decoder

`read_message` on a socket whose peer sends the bytes `s` and closes, against
`parse_frame` on `s`.  The reader takes a turn for every event of `readSocket`: it
receives some of the bytes that are left, or it is interrupted, or it meets the end of
the stream.  However the bytes are cut, the call returns what `streamResult` says, and
that is what `parse_frame` finds in `s`.
-/

namespace InferenceRouter.Connection

open Interleaving

/-! ## A socket -/

/-- A turn that a socket with these bytes can take.  The stream ends when it is closed
and everything has been received. -/
def Outcome.fits (bytes : List UInt8) (closed : Bool) : Outcome (List UInt8) → Bool
  | .moved chunk => chunk.isPrefixOf bytes
  | .stop .kPeerClosed => bytes.isEmpty && closed
  | .again | .stop _ => true

/-- The bytes that are left after it. -/
def Outcome.rest (bytes : List UInt8) : Outcome (List UInt8) → List UInt8
  | .moved chunk => bytes.drop chunk.length
  | .again | .stop _ => bytes

/-- What a turn takes in is what the socket loses. -/
theorem Outcome.fits_split {o : Outcome (List UInt8)} {bytes : List UInt8} {closed : Bool}
    (h : o.fits bytes closed = true) : o.chunk ++ o.rest bytes = bytes := by
  cases o with
  | moved chunk =>
      obtain ⟨rest, hrest⟩ := List.isPrefixOf_iff_prefix.mp h
      simp only [Outcome.chunk, Outcome.rest]
      rw [← hrest, List.drop_left]
  | again | stop => rfl

/-- No timeout and no error. -/
def Outcome.quiet {α : Type} : Outcome α → Bool
  | .moved _ | .again | .stop .kPeerClosed => true
  | .stop _ => false

/-- Not a turn to be repeated. -/
def Outcome.productive {α : Type} : Outcome α → Bool
  | .moved _ | .stop _ => true
  | .again => false

/-- The turn ends without a timeout or an error. -/
def ReadTurn.quiet (timeoutMs : Int) (t : ReadTurn) : Bool :=
  (t.outcome timeoutMs).any Outcome.quiet

def ReadTurn.productive (timeoutMs : Int) (t : ReadTurn) : Bool :=
  (t.outcome timeoutMs).any Outcome.productive

/-- A call of `read_message`, and the bytes that the socket still has for it. -/
structure Socket where
  call : Reading ⊕ (IoStatus × List UInt8)
  bytes : List UInt8
  deriving DecidableEq

def Socket.step (maxPayload : Nat) (timeoutMs : Int) (s : Socket) (t : ReadTurn) :
    Option Socket :=
  match s.call, t.outcome timeoutMs with
  | .inl r, some o =>
      if o.fits s.bytes true = true then
        (r.turn maxPayload o).map (fun call => { call := call, bytes := o.rest s.bytes })
      else none
  | _, _ => none

/-- `read_message(fd, out, max_payload, timeout_ms)` on a socket that delivers `bytes`
and then the end of the stream. -/
def readSocket (maxPayload : Nat) (timeoutMs : Int) (bytes : List UInt8) :
    Machine Socket ReadTurn where
  init := { call := .inl .start, bytes := bytes }
  step := Socket.step maxPayload timeoutMs

theorem Socket.step_cases {maxPayload : Nat} {timeoutMs : Int} {s s' : Socket} {t : ReadTurn}
    (h : s.step maxPayload timeoutMs t = some s') :
    ∃ r o, s.call = .inl r ∧ t.outcome timeoutMs = some o ∧ o.fits s.bytes true = true ∧
      r.turn maxPayload o = some s'.call ∧ s'.bytes = o.rest s.bytes := by
  simp only [Socket.step] at h
  split at h
  next r o hcall hout =>
    split at h
    next hfits =>
      obtain ⟨call, hturn, rfl⟩ := Option.map_eq_some_iff.mp h
      exact ⟨r, o, hcall, hout, hfits, hturn, rfl⟩
    next => cases h
  next => cases h

/-! ## What the call returns -/

/-- The status, the buffer and the bytes left over, for a peer that sends `s` and
closes. -/
def streamResult (maxPayload : Nat) (s : List UInt8) :
    (IoStatus × List UInt8) × List UInt8 :=
  if s.length < 4 then ((.kPeerClosed, []), [])
  else
    let len := headerLength s
    if maxPayload < len then ((.kProtocolError, []), s.drop 4)
    else if s.length < 4 + len then
      ((.kPeerClosed, s.drop 4 ++ List.replicate (4 + len - s.length) 0), [])
    else ((.kOk, (s.drop 4).take len), s.drop (4 + len))

/-- The decoder on the same bytes. -/
theorem streamResult_parseFrame (maxPayload : Nat) (s out : List UInt8) :
    (streamResult maxPayload s).1.1 = (parseFrame (some s) maxPayload out).1 ∧
      ((parseFrame (some s) maxPayload out).1 = .kOk →
        (streamResult maxPayload s).1.2 = (parseFrame (some s) maxPayload out).2.1 ∧
          s.length = (parseFrame (some s) maxPayload out).2.2 +
            (streamResult maxPayload s).2.length) := by
  simp only [streamResult, parseFrame]
  split
  next => exact ⟨rfl, by simp⟩
  next =>
    split
    next => exact ⟨rfl, by simp⟩
    next =>
      split
      next => exact ⟨rfl, by simp⟩
      next hlen =>
        refine ⟨rfl, fun _ => ⟨rfl, ?_⟩⟩
        show s.length = 4 + headerLength s + _
        rw [List.length_drop]
        omega

/-- The header alone decides the length. -/
theorem headerLength_append {hdr : List UInt8} (h : hdr.length = 4) (rest : List UInt8) :
    headerLength (hdr ++ rest) = headerLength hdr := by
  match hdr, h with
  | [a, b, c, d], _ => rfl

theorem streamResult_frame {maxPayload : Nat} {payload : List UInt8}
    (h : payload.length < 2 ^ 32) (hmax : payload.length ≤ maxPayload) (rest : List UInt8) :
    streamResult maxPayload (frame payload ++ rest) = ((.kOk, payload), rest) := by
  have hwhole := Nat.not_lt.mpr (le_length_frame_append payload rest)
  have hlen : ¬ (frame payload ++ rest).length < 4 := by omega
  have hrest : (frame payload ++ rest).drop (4 + payload.length) = rest := by
    rw [← length_frame, List.drop_left]
  simp only [streamResult, headerLength_frame h, hlen, hwhole, if_false, Nat.not_lt.mpr hmax,
    drop_frame_append, hrest, List.take_left]

/-- A header that is refused. -/
theorem streamResult_refused {maxPayload : Nat} {hdr : List UInt8} (hlen : hdr.length = 4)
    (hbig : maxPayload < headerLength hdr) (rest : List UInt8) :
    streamResult maxPayload (hdr ++ rest) = ((.kProtocolError, []), rest) := by
  have hfour : ¬ (hdr ++ rest).length < 4 := by
    rw [List.length_append]
    omega
  simp only [streamResult, hfour, if_false, headerLength_append hlen, hbig, if_true]
  rw [← hlen, List.drop_left]

/-- A stream that ends inside a message, or before one. -/
theorem streamResult_short {maxPayload : Nat} {s : List UInt8} {r : Reading} (h : r.Has s)
    (hacc : r.Accepted maxPayload) : streamResult maxPayload s = (r.stop .kPeerClosed, []) := by
  cases r with
  | header got =>
      obtain ⟨rfl, hgot⟩ := h
      simp only [streamResult, hgot, if_true]
      rfl
  | payload len got =>
      obtain ⟨rfl, hlen, hgot⟩ := h
      have hfour : ¬ (header len ++ got).length < 4 := by
        rw [List.length_append, length_header]
        omega
      have hshort : (header len ++ got).length < 4 + len := by
        rw [List.length_append, length_header]
        omega
      have hdrop : (header len ++ got).drop 4 = got := by
        rw [← length_header len, List.drop_left]
      have hmissing : 4 + len - (header len ++ got).length = len - got.length := by
        rw [List.length_append, length_header]
        omega
      simp only [streamResult, hfour, if_false, headerLength_header hlen,
        Nat.not_lt.mpr (show len ≤ maxPayload from hacc), hshort, if_true, hdrop, hmissing]
      rfl

/-! ## Runs -/

/-- Where a call is that was given the stream `s`. -/
def Socket.Follows (maxPayload : Nat) (s : List UInt8) (k : Socket) : Prop :=
  match k.call with
  | .inl r => ∃ taken, s = taken ++ k.bytes ∧ r.Has taken ∧ r.Accepted maxPayload
  | .inr result => streamResult maxPayload s = (result, k.bytes)

theorem Socket.Follows.step {maxPayload : Nat} {timeoutMs : Int} {s : List UInt8} {k k' : Socket}
    {t : ReadTurn} (h : k.Follows maxPayload s) (hquiet : t.quiet timeoutMs = true)
    (hstep : k.step maxPayload timeoutMs t = some k') : k'.Follows maxPayload s := by
  obtain ⟨r, o, hcall, hout, hfits, hturn, hbytes⟩ := Socket.step_cases hstep
  simp only [Socket.Follows, hcall] at h
  obtain ⟨taken, hs, hhas, hacc⟩ := h
  have hsplit : s = (taken ++ o.chunk) ++ k'.bytes := by
    rw [hs, hbytes, List.append_assoc, Outcome.fits_split hfits]
  cases hk : k'.call with
  | inl r' =>
      rw [hk] at hturn
      simp only [Socket.Follows, hk]
      exact ⟨taken ++ o.chunk, hsplit, Reading.turn_more hhas hacc hturn⟩
  | inr result =>
      obtain ⟨status, out⟩ := result
      rw [hk] at hturn
      simp only [Socket.Follows, hk]
      rcases Reading.turn_returns hhas hacc hturn with
        ⟨rfl, hframe, hsize, hmax⟩ | ⟨rfl, rfl, hlen, hbig⟩ | ⟨rfl, hstop⟩
      · rw [hsplit, hframe]
        exact streamResult_frame hsize hmax _
      · rw [hsplit]
        exact streamResult_refused hlen hbig _
      · -- a quiet turn gives up at the end of the stream only
        have hclosed : status = .kPeerClosed := by
          rw [ReadTurn.quiet, hout] at hquiet
          cases status <;> first | rfl | cases hquiet
        subst hclosed
        have hempty : k.bytes = [] := by simpa [Outcome.fits] using hfits
        rw [hempty, List.append_nil] at hs
        rw [hstop, hs, hbytes, Outcome.rest, hempty]
        exact streamResult_short hhas hacc

/-- Every turn of a call that goes on, if it is not repeated, takes a byte. -/
theorem Socket.productive_le {maxPayload : Nat} {timeoutMs : Int} {s : List UInt8}
    {turns : List ReadTurn} {k k' : Socket} {r : Reading}
    (h : (readSocket maxPayload timeoutMs s).exec k turns = some k') (hcall : k'.call = .inl r) :
    turns.countP (ReadTurn.productive timeoutMs) + k'.bytes.length ≤ k.bytes.length := by
  refine Machine.countP_add_rank_le (R := fun k : Socket => ∃ r, k.call = .inl r)
    (f := fun k => k.bytes.length) ?_ ?_ h ⟨r, hcall⟩
  · intro k t k' hstep
    obtain ⟨r, -, hcall, -⟩ := Socket.step_cases hstep
    exact ⟨r, hcall⟩
  · rintro k t k' hstep ⟨r', hcall'⟩
    obtain ⟨r, o, -, hout, hfits, hturn, hbytes⟩ := Socket.step_cases hstep
    rw [ReadTurn.productive, hout, hbytes]
    rcases Reading.turn_cases hturn with
      ⟨chunk, rfl, hpos, -, -⟩ | ⟨rfl, -⟩ | ⟨status, rfl, hstop⟩
    · have hle := (List.isPrefixOf_iff_prefix.mp hfits).length_le
      simp only [Outcome.rest, List.length_drop, Option.any_some, Outcome.productive,
        Bool.toNat_true]
      omega
    · simp [Outcome.rest, Outcome.productive]
    · rw [hstop] at hcall'
      cases hcall'

/-- Until the call has returned, the socket has something for it: the next byte or the
end of the stream. -/
theorem Socket.Follows.enabled {maxPayload : Nat} {s : List UInt8} {k : Socket} {r : Reading}
    (h : k.Follows maxPayload s) (hcall : k.call = .inl r) (timeoutMs : Int) :
    ∃ t k', ReadTurn.quiet timeoutMs t = true ∧ ReadTurn.productive timeoutMs t = true ∧
      k.step maxPayload timeoutMs t = some k' := by
  simp only [Socket.Follows, hcall] at h
  obtain ⟨taken, -, hhas, -⟩ := h
  cases hbytes : k.bytes with
  | nil =>
      refine ⟨{ recv := .eof }, { call := .inr (r.stop .kPeerClosed), bytes := [] }, ?_⟩
      simp [ReadTurn.quiet, ReadTurn.productive, ReadTurn.outcome, Socket.step, hcall, hbytes,
        Outcome.quiet, Outcome.productive, Outcome.fits, Outcome.rest, Reading.turn]
  | cons b rest =>
      have hneed : 1 ≤ r.need := hhas.need_pos
      refine ⟨{ recv := .bytes [b] }, { call := r.recv maxPayload [b], bytes := rest }, ?_⟩
      simp [ReadTurn.quiet, ReadTurn.productive, ReadTurn.outcome, Socket.step, hcall, hbytes,
        Outcome.quiet, Outcome.productive, Outcome.fits, Outcome.rest, Reading.turn, hneed]

/-- What is known after some turns of a call that was given the stream `s`. -/
structure AgreesWithDecoder (maxPayload : Nat) (timeoutMs : Int) (s : List UInt8)
    (turns : List ReadTurn) (k : Socket) : Prop where
  /-- A call that has returned agrees with `parse_frame`, whatever the turns were. -/
  returned : ∀ status out, k.call = .inr (status, out) →
    ((status, out), k.bytes) = streamResult maxPayload s ∧
    ∀ out₀, status = (parseFrame (some s) maxPayload out₀).1 ∧
      (status = .kOk → out = (parseFrame (some s) maxPayload out₀).2.1 ∧
        s.length - k.bytes.length = (parseFrame (some s) maxPayload out₀).2.2)
  /-- A call that has not returned has had fewer turns, repeated ones aside, than there
  are bytes and an end. -/
  running : ∀ r, k.call = .inl r → turns.countP (ReadTurn.productive timeoutMs) < s.length + 1
  /-- And another one can follow. -/
  enabled : ∀ r, k.call = .inl r → ∃ t k', ReadTurn.quiet timeoutMs t = true ∧
    ReadTurn.productive timeoutMs t = true ∧ k.step maxPayload timeoutMs t = some k'

theorem Socket.agrees_run {maxPayload : Nat} {timeoutMs : Int} {s : List UInt8}
    {turns : List ReadTurn} {k : Socket}
    (h : (readSocket maxPayload timeoutMs s).run turns = some k)
    (hquiet : ∀ t ∈ turns, ReadTurn.quiet timeoutMs t = true) :
    AgreesWithDecoder maxPayload timeoutMs s turns k := by
  have hfollows : k.Follows maxPayload s := by
    have hinit : (readSocket maxPayload timeoutMs s).init.Follows maxPayload s :=
      ⟨[], rfl, Reading.has_start, trivial⟩
    have hreaches : (readSocket maxPayload timeoutMs s).Reaches
        (fun t => ReadTurn.quiet timeoutMs t = true) _ k := ⟨turns, hquiet, h⟩
    exact hreaches.invariant (fun _ _ _ hk ht hstep => hk.step ht hstep) hinit
  constructor
  case returned =>
    intro status out hcall
    simp only [Socket.Follows, hcall] at hfollows
    refine ⟨hfollows.symm, fun out₀ => ?_⟩
    obtain ⟨hstatus, hok⟩ := streamResult_parseFrame maxPayload s out₀
    rw [hfollows] at hstatus hok
    refine ⟨hstatus, fun hk => ?_⟩
    obtain ⟨hout, hlen⟩ := hok (hstatus ▸ hk)
    refine ⟨hout, ?_⟩
    rw [hlen, Nat.add_sub_cancel]
  case running =>
    intro r hcall
    have hle := Socket.productive_le h hcall
    have hbytes : (readSocket maxPayload timeoutMs s).init.bytes = s := rfl
    rw [hbytes] at hle
    omega
  case enabled =>
    intro r hcall
    exact hfollows.enabled hcall timeoutMs

theorem read_message_agrees (maxPayload : Nat) (timeoutMs : Int) (s : List UInt8)
    {turns : List ReadTurn} {k : Socket}
    (h : (readSocket maxPayload timeoutMs s).run turns = some k)
    (hquiet : ∀ t ∈ turns, ReadTurn.quiet timeoutMs t = true) :
    AgreesWithDecoder maxPayload timeoutMs s turns k :=
  Socket.agrees_run h hquiet

/-- The two bytes of a message in three pieces, with an interruption of `poll` and one
of `recv`. -/
def threePieces : List ReadTurn :=
  [{ recv := .bytes [0, 0, 0] }, { polls := [.failed .eintr, .ready], recv := .bytes [2] },
    { recv := .failed .eagain }, { recv := .bytes [7, 8] }]

theorem read_message_agrees_threePieces : ∃ k,
    (readSocket 16 5000 [0, 0, 0, 2, 7, 8, 9]).run threePieces = some k ∧
      k.call = .inr (.kOk, [7, 8]) ∧ k.bytes = [9] ∧
      AgreesWithDecoder 16 5000 [0, 0, 0, 2, 7, 8, 9] threePieces k := by
  refine ⟨{ call := .inr (.kOk, [7, 8]), bytes := [9] }, by decide, rfl, rfl, ?_⟩
  exact read_message_agrees 16 5000 _ (by decide) (by decide)

end InferenceRouter.Connection
