import InferenceRouter.Connection.Frame

/-!
# Messages, a few bytes at a time

`read_message` and `write_message` of `connection.cpp` and `tls.cpp` between two
system calls.  Each is two loops, `read_exact` or `write_exact` for the header
and then for the payload, and every turn of a loop moves as many bytes as the
call returned.  A turn that is retried (`EINTR`, `EAGAIN`, `SSL_ERROR_WANT_*`)
changes nothing and has no counterpart here.  The plaintext and the TLS overload
differ in the calls that move the bytes and not in these states.

`Reading.Has` and `Writing.Valid` say where in the byte stream a call is: a read
that returns `kOk` has taken exactly the frame of the payload that it returns,
and a write that returns `kOk` has put out exactly the frame of its data.

`completeFrames` is what a peer makes of a byte stream: the payloads of the
frames that have arrived whole, as `parse_frame` finds them.
-/

namespace InferenceRouter.Connection

/-- `kDefaultMaxPayload`. -/
def kDefaultMaxPayload : Nat := 16 * 1024 * 1024

/-- The statuses with which `read_exact` and `write_exact` give up. -/
def IoStatus.givesUp : IoStatus → Bool
  | .kPeerClosed | .kTimeout | .kIoError => true
  | .kOk | .kProtocolError => false

/-! ## Reading -/

/-- A call of `read_message`. -/
inductive Reading where
  /-- In `read_exact` of the header. -/
  | header (got : List UInt8)
  /-- In `read_exact` of the payload, into the buffer of size `len`. -/
  | payload (len : Nat) (got : List UInt8)

def Reading.start : Reading := .header []

/-- How many bytes the current `recv` asks for. -/
def Reading.need : Reading → Nat
  | .header got => 4 - got.length
  | .payload len got => len - got.length

/-- A `recv` returned `bytes`: the call goes on, or it returns its status and the
buffer. -/
def Reading.recv (maxPayload : Nat) (bytes : List UInt8) :
    Reading → Reading ⊕ (IoStatus × List UInt8)
  | .header got =>
      let hdr := got ++ bytes
      if hdr.length < 4 then .inl (.header hdr)
      else
        let len := headerLength hdr
        if maxPayload < len then .inr (.kProtocolError, [])
        else if len = 0 then .inr (.kOk, [])
        else .inl (.payload len [])
  | .payload len got =>
      let out := got ++ bytes
      if out.length < len then .inl (.payload len out) else .inr (.kOk, out)

/-- `read_exact` gave up.  The buffer has been resized by then, if the header is
in. -/
def Reading.stop (status : IoStatus) : Reading → IoStatus × List UInt8
  | .header _ => (status, [])
  | .payload len got => (status, got ++ List.replicate (len - got.length) 0)

/-- The call has taken `bytes` from the stream. -/
def Reading.Has (bytes : List UInt8) : Reading → Prop
  | .header got => bytes = got ∧ got.length < 4
  | .payload len got => bytes = Connection.header len ++ got ∧ len < 2 ^ 32 ∧ got.length < len

theorem Reading.has_start : Reading.start.Has [] := ⟨rfl, by simp⟩

/-- Four bytes are the header of the length they declare. -/
theorem header_headerLength {hdr : List UInt8} (h : hdr.length = 4) :
    header (headerLength hdr) = hdr := by
  obtain ⟨a, b, c, d, rfl⟩ : ∃ a b c d, hdr = [a, b, c, d] := by
    match hdr, h with
    | [a, b, c, d], _ => exact ⟨a, b, c, d, rfl⟩
  have ha := a.toNat_lt
  have hb := b.toNat_lt
  have hc := c.toNat_lt
  have hd := d.toNat_lt
  have hbyte : ∀ {n : Nat} {x : UInt8}, n = x.toNat → UInt8.ofNat n = x := by
    intro n x hn
    rw [hn, UInt8.ofNat_toNat]
  simp only [header, headerLength, List.cons.injEq, and_true]
  exact ⟨hbyte (by omega), hbyte (by omega), hbyte (by omega), hbyte (by omega)⟩

theorem headerLength_lt (bytes : List UInt8) : headerLength bytes < 2 ^ 32 := by
  unfold headerLength
  split
  next a b c d _ =>
    have ha := a.toNat_lt
    have hb := b.toNat_lt
    have hc := c.toNat_lt
    have hd := d.toNat_lt
    omega
  next => decide

theorem Reading.recv_more {r r' : Reading} {maxPayload : Nat} {bytes chunk : List UInt8}
    (h : r.Has bytes) (hneed : chunk.length ≤ r.need) (hr : r.recv maxPayload chunk = .inl r') :
    r'.Has (bytes ++ chunk) := by
  cases r with
  | header got =>
      obtain ⟨rfl, hgot⟩ := h
      simp only [Reading.recv] at hr
      split at hr
      next hshort =>
        cases hr
        exact ⟨rfl, hshort⟩
      next hfull =>
        split at hr
        next => cases hr
        next =>
          split at hr
          next => cases hr
          next hpos =>
            cases hr
            have hlen : (bytes ++ chunk).length = 4 := by
              simp only [Reading.need, List.length_append] at hneed hfull ⊢
              omega
            refine ⟨?_, headerLength_lt _, ?_⟩
            · rw [header_headerLength hlen, List.append_nil]
            · simp only [List.length_nil]
              omega
  | payload len got =>
      obtain ⟨rfl, hlen, hgot⟩ := h
      simp only [Reading.recv] at hr
      split at hr
      next hshort =>
        cases hr
        exact ⟨List.append_assoc _ _ _, hlen, hshort⟩
      next => cases hr

/-- A read that returns `kOk` has taken the frame of the payload it returns. -/
theorem Reading.recv_ok {r : Reading} {maxPayload : Nat} {bytes chunk out : List UInt8}
    (h : r.Has bytes) (hneed : chunk.length ≤ r.need)
    (hr : r.recv maxPayload chunk = .inr (.kOk, out)) :
    bytes ++ chunk = frame out ∧ out.length < 2 ^ 32 := by
  cases r with
  | header got =>
      obtain ⟨rfl, hgot⟩ := h
      simp only [Reading.recv] at hr
      split at hr
      next => cases hr
      next hfull =>
        split at hr
        next => cases hr
        next =>
          split at hr
          next hzero =>
            cases hr
            have hlen : (bytes ++ chunk).length = 4 := by
              simp only [Reading.need, List.length_append] at hneed hfull ⊢
              omega
            refine ⟨?_, by decide⟩
            rw [← header_headerLength hlen, hzero]
            rfl
          next => cases hr
  | payload len got =>
      obtain ⟨rfl, hlen, hgot⟩ := h
      simp only [Reading.recv] at hr
      split at hr
      next => cases hr
      next hfull =>
        cases hr
        have hout : (got ++ chunk).length = len := by
          simp only [Reading.need, List.length_append] at hneed hfull ⊢
          omega
        rw [frame, hout, List.append_assoc]
        exact ⟨rfl, hlen⟩

/-! ## Writing -/

/-- A call of `write_message`. -/
inductive Writing where
  /-- In `write_exact` of the header, with that many bytes sent. -/
  | header (sent : Nat)
  /-- In `write_exact` of the payload. -/
  | payload (sent : Nat)

/-- The check of the size, then the header. -/
def Writing.start (data : List UInt8) : Writing ⊕ IoStatus :=
  if 0xFFFFFFFF < data.length then .inr .kProtocolError else .inl (.header 0)

/-- How many bytes the current `send` offers. -/
def Writing.need (data : List UInt8) : Writing → Nat
  | .header sent => 4 - sent
  | .payload sent => data.length - sent

/-- The bytes that a `send` which returned `n` has put out. -/
def Writing.chunk (data : List UInt8) (n : Nat) : Writing → List UInt8
  | .header sent => ((Connection.header data.length).drop sent).take n
  | .payload sent => (data.drop sent).take n

/-- A `send` returned `n`: the call goes on, or it returns its status. -/
def Writing.send (data : List UInt8) (n : Nat) : Writing → Writing ⊕ IoStatus
  | .header sent =>
      if sent + n < 4 then .inl (.header (sent + n))
      else if data.length = 0 then .inr .kOk
      else .inl (.payload 0)
  | .payload sent =>
      if sent + n < data.length then .inl (.payload (sent + n)) else .inr .kOk

/-- How many bytes of the frame are out. -/
def Writing.pos : Writing → Nat
  | .header sent => sent
  | .payload sent => 4 + sent

/-- The call has bytes left to send. -/
def Writing.Valid (data : List UInt8) : Writing → Prop
  | .header sent => sent < 4
  | .payload sent => sent < data.length

theorem Writing.valid_start {data : List UInt8} {w : Writing} (h : Writing.start data = .inl w) :
    w.Valid data ∧ w.pos = 0 ∧ data.length < 2 ^ 32 := by
  simp only [Writing.start] at h
  split at h
  next => cases h
  next hsize =>
    cases h
    exact ⟨by simp [Writing.Valid], rfl, by omega⟩

/-- A message that is too long is refused before its first byte. -/
theorem Writing.start_fail {data : List UInt8} {status : IoStatus}
    (h : Writing.start data = .inr status) : status ≠ .kOk := by
  simp only [Writing.start] at h
  split at h
  next =>
    cases h
    decide
  next => cases h

/-- A `send` continues the frame where the last one stopped. -/
theorem Writing.Valid.take_append {data : List UInt8} {w : Writing} (h : w.Valid data) {n : Nat}
    (hn : n ≤ w.need data) :
    (frame data).take w.pos ++ w.chunk data n = (frame data).take (w.pos + n) := by
  rw [List.take_add]
  cases w with
  | header sent =>
      have hlen : n ≤ ((Connection.header data.length).drop sent).length := by
        simp only [Writing.need, List.length_drop, length_header] at hn ⊢
        exact hn
      have hsent : sent ≤ (Connection.header data.length).length := by
        simp only [Writing.Valid, length_header] at h ⊢
        omega
      simp only [Writing.pos, Writing.chunk, frame]
      rw [List.drop_append_of_le_length hsent, List.take_append_of_le_length hlen]
  | payload sent =>
      simp only [Writing.pos, Writing.chunk, frame]
      rw [← length_header data.length, List.drop_length_add_append]

theorem Writing.send_more {data : List UInt8} {w w' : Writing} {n : Nat} (h : w.Valid data)
    (hn : n ≤ w.need data) (hw : w.send data n = .inl w') :
    w'.Valid data ∧ w'.pos = w.pos + n := by
  cases w with
  | header sent =>
      simp only [Writing.send] at hw
      split at hw
      next hless =>
        cases hw
        exact ⟨hless, rfl⟩
      next hfull =>
        split at hw
        next => cases hw
        next hpos =>
          cases hw
          simp only [Writing.Valid, Writing.need, Writing.pos] at h hn ⊢
          exact ⟨by omega, by omega⟩
  | payload sent =>
      simp only [Writing.send] at hw
      split at hw
      next hless =>
        cases hw
        exact ⟨hless, by simp only [Writing.pos]; omega⟩
      next => cases hw

/-- A write that returns has put out the whole frame. -/
theorem Writing.send_done {data : List UInt8} {w : Writing} {n : Nat} {status : IoStatus}
    (h : w.Valid data) (hn : n ≤ w.need data) (hw : w.send data n = .inr status) :
    status = .kOk ∧ w.pos + n = (frame data).length := by
  rw [length_frame]
  cases w with
  | header sent =>
      simp only [Writing.send] at hw
      split at hw
      next => cases hw
      next hfull =>
        split at hw
        next hzero =>
          cases hw
          refine ⟨rfl, ?_⟩
          simp only [Writing.Valid, Writing.need, Writing.pos] at h hn ⊢
          omega
        next => cases hw
  | payload sent =>
      simp only [Writing.send] at hw
      split at hw
      next => cases hw
      next hfull =>
        cases hw
        refine ⟨rfl, ?_⟩
        simp only [Writing.Valid, Writing.need, Writing.pos] at h hn ⊢
        omega

/-! ## Frames in a byte stream -/

/-- The first frames of a byte stream, at most `fuel` of them. -/
def framesIn : Nat → List UInt8 → List (List UInt8)
  | 0, _ => []
  | fuel + 1, bytes =>
      match parseFrame (some bytes) (2 ^ 32) [] with
      | (.kOk, payload, consumed) => payload :: framesIn fuel (bytes.drop consumed)
      | _ => []

/-- The frames that have arrived whole.  Every frame has four bytes or more, so
there are fewer frames than bytes. -/
def completeFrames (bytes : List UInt8) : List (List UInt8) := framesIn bytes.length bytes

theorem parseFrame_frame {payload : List UInt8} (h : payload.length < 2 ^ 32)
    (rest out : List UInt8) {maxPayload : Nat} (hmax : payload.length ≤ maxPayload) :
    parseFrame (some (frame payload ++ rest)) maxPayload out =
      (.kOk, payload, 4 + payload.length) := by
  have hwhole := Nat.not_lt.mpr (le_length_frame_append payload rest)
  have hlen : ¬ (frame payload ++ rest).length < 4 := by omega
  simp only [parseFrame, headerLength_frame h, hlen, hwhole, if_false, Nat.not_lt.mpr hmax,
    drop_frame_append, List.take_left]

/-- A part of a frame is not a frame. -/
theorem parseFrame_ne_kOk {payload bytes : List UInt8} (h : payload.length < 2 ^ 32)
    (hbytes : bytes <+: frame payload) (hshort : bytes.length < (frame payload).length)
    (maxPayload : Nat) (out : List UInt8) :
    (parseFrame (some bytes) maxPayload out).1 ≠ .kOk := by
  simp only [parseFrame]
  split
  next => simp
  next hfour =>
    have hlen : headerLength bytes = payload.length := by
      obtain ⟨rest, hrest⟩ := hbytes
      have hhdr := headerLength_frame h []
      rw [List.append_nil, ← hrest] at hhdr
      rw [← hhdr]
      match bytes, hfour with
      | a :: b :: c :: d :: _, _ => rfl
      | [], hfour | [_], hfour | [_, _], hfour | [_, _, _], hfour => simp at hfour
    rw [length_frame] at hshort
    rw [hlen, if_pos hshort]
    split <;> simp

theorem framesIn_frames (payloads : List (List UInt8)) (h : ∀ p ∈ payloads, p.length < 2 ^ 32)
    (fuel : Nat) (rest : List UInt8) :
    framesIn (payloads.length + fuel) (payloads.flatMap frame ++ rest) =
      payloads ++ framesIn fuel rest := by
  induction payloads with
  | nil => simp
  | cons p payloads ih =>
      have hp := h p List.mem_cons_self
      have hfuel : (p :: payloads).length + fuel = payloads.length + fuel + 1 := by
        rw [List.length_cons]
        omega
      rw [hfuel, List.flatMap_cons, List.append_assoc, framesIn,
        parseFrame_frame hp _ _ (by omega)]
      have hdrop : (frame p ++ (payloads.flatMap frame ++ rest)).drop (4 + p.length) =
          payloads.flatMap frame ++ rest := by
        rw [← length_frame, List.drop_left]
      simp only [hdrop, List.cons_append]
      rw [ih (fun p' hp' => h p' (List.mem_cons_of_mem _ hp'))]

theorem framesIn_part {payload bytes : List UInt8} (h : payload.length < 2 ^ 32)
    (hbytes : bytes <+: frame payload) (hshort : bytes.length < (frame payload).length) :
    ∀ fuel, framesIn fuel bytes = []
  | 0 => rfl
  | fuel + 1 => by
      have hne := parseFrame_ne_kOk h hbytes hshort (2 ^ 32) []
      unfold framesIn
      split
      next payload consumed heq =>
        rw [heq] at hne
        exact absurd rfl hne
      next => rfl

theorem length_le_flatMap_frame (payloads : List (List UInt8)) :
    payloads.length ≤ (payloads.flatMap frame).length := by
  induction payloads with
  | nil => simp
  | cons p payloads ih =>
      rw [List.flatMap_cons, List.length_append, length_frame, List.length_cons]
      omega

/-- A part of a frame that follows whole frames does not count. -/
theorem completeFrames_part {payloads : List (List UInt8)} {payload bytes : List UInt8}
    (h : ∀ p ∈ payloads, p.length < 2 ^ 32) (hpayload : payload.length < 2 ^ 32)
    (hbytes : bytes <+: frame payload) (hshort : bytes.length < (frame payload).length) :
    completeFrames (payloads.flatMap frame ++ bytes) = payloads := by
  have hle := length_le_flatMap_frame payloads
  obtain ⟨fuel, hfuel⟩ : ∃ fuel, (payloads.flatMap frame ++ bytes).length =
      payloads.length + fuel := by
    refine ⟨(payloads.flatMap frame).length - payloads.length + bytes.length, ?_⟩
    rw [List.length_append]
    omega
  rw [completeFrames, hfuel, framesIn_frames payloads h, framesIn_part hpayload hbytes hshort,
    List.append_nil]

theorem completeFrames_frames {payloads : List (List UInt8)}
    (h : ∀ p ∈ payloads, p.length < 2 ^ 32) :
    completeFrames (payloads.flatMap frame) = payloads := by
  have hpart := @completeFrames_part payloads [] [] h (by simp) (List.nil_prefix) (by simp)
  rwa [List.append_nil] at hpart

/-- A frame is no part of another one. -/
theorem eq_of_frame_prefix {p p' : List UInt8} (hp : p.length < 2 ^ 32) (hp' : p'.length < 2 ^ 32)
    (h : frame p <+: frame p') : p = p' := by
  obtain ⟨rest, hrest⟩ := h
  have hlen := headerLength_frame hp rest
  rw [hrest] at hlen
  have hlen' := headerLength_frame hp' []
  rw [List.append_nil, hlen] at hlen'
  have hnil : rest = [] := by
    have hlength := congrArg List.length hrest
    rw [List.length_append, length_frame, length_frame, hlen'] at hlength
    exact List.length_eq_zero_iff.mp (by omega)
  rw [hnil, List.append_nil, frame, frame, hlen'] at hrest
  exact List.append_cancel_left hrest

end InferenceRouter.Connection
