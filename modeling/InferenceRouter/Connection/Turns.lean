import InferenceRouter.Connection.Message

/-!
# The turns of `read_exact` and `write_exact`

A turn of either loop waits for the descriptor (`wait_for`) and then makes one system
call.  `ReadTurn.outcome` and `WriteTurn.outcome` say what the turn comes to: bytes
moved, another turn, or a status with which the loop gives up.  `Reading.turn` and
`Writing.turn` apply that to a call of `read_message` or `write_message`.

What the kernel answers is the environment's choice.  A list of polls is the polls
that one `wait_for` makes.  Their timeouts are computed from a clock, and a poll may
report a timeout whenever it likes, so the clock does not appear.
-/

namespace InferenceRouter.Connection

/-- `errno` after a system call that failed. -/
inductive Errno where
  | eintr
  | eagain
  | ewouldblock
  | epipe
  | econnreset
  | other
  deriving DecidableEq

/-! ## `wait_for` -/

/-- What `poll` returned: a positive number, zero, or a negative one. -/
inductive Poll where
  | ready
  | timeout
  | failed (errno : Errno)

/-- What `wait_for` returned: `1`, `0` or `-1`. -/
inductive Wait where
  | ready
  | timeout
  | error
  deriving DecidableEq

/-- The loop of `wait_for`; `none` while it has not returned. -/
def pollLoop : List Poll → Option Wait
  | [] => none
  | .failed errno :: polls => if errno = .eintr then pollLoop polls else some .error
  | .timeout :: _ => some .timeout
  | .ready :: _ => some .ready

/-- `wait_for`. -/
def waitFor (timeoutMs : Int) (polls : List Poll) : Option Wait :=
  if timeoutMs < 0 then some .ready else pollLoop polls

@[simp] theorem waitFor_ready (timeoutMs : Int) : waitFor timeoutMs [.ready] = some .ready := by
  simp only [waitFor]
  split <;> rfl

/-! ## Turns -/

/-- What a turn of a loop comes to. -/
inductive Outcome (α : Type) where
  /-- The call moved bytes. -/
  | moved (a : α)
  /-- The loop goes on. -/
  | again
  /-- The loop returns the status. -/
  | stop (status : IoStatus)

/-- What `recv` returned: a positive number with that many bytes, zero, or `-1`. -/
inductive Recv where
  | bytes (chunk : List UInt8)
  | eof
  | failed (errno : Errno)

/-- What `send` returned. -/
inductive Send where
  | sent (n : Nat)
  | failed (errno : Errno)

structure ReadTurn where
  polls : List Poll := [.ready]
  recv : Recv

structure WriteTurn where
  polls : List Poll := [.ready]
  send : Send

/-- A turn of `read_exact`. -/
def ReadTurn.outcome (timeoutMs : Int) (t : ReadTurn) : Option (Outcome (List UInt8)) :=
  match waitFor timeoutMs t.polls with
  | none => none
  | some .timeout => some (.stop .kTimeout)
  | some .error => some (.stop .kIoError)
  | some .ready =>
      match t.recv with
      | .bytes chunk => some (.moved chunk)
      | .eof => some (.stop .kPeerClosed)
      | .failed errno =>
          if errno = .eintr then some .again
          else if errno = .eagain ∨ errno = .ewouldblock then some .again
          else some (.stop .kIoError)

/-- A turn of `write_exact`. -/
def WriteTurn.outcome (timeoutMs : Int) (t : WriteTurn) : Option (Outcome Nat) :=
  match waitFor timeoutMs t.polls with
  | none => none
  | some .timeout => some (.stop .kTimeout)
  | some .error => some (.stop .kIoError)
  | some .ready =>
      match t.send with
      | .sent n => some (.moved n)
      | .failed errno =>
          if errno = .eintr then some .again
          else if errno = .eagain ∨ errno = .ewouldblock then some .again
          else if errno = .epipe ∨ errno = .econnreset then some (.stop .kPeerClosed)
          else some (.stop .kIoError)

/-- A loop that gives up says why. -/
theorem ReadTurn.outcome_stop {timeoutMs : Int} {t : ReadTurn} {status : IoStatus}
    (h : t.outcome timeoutMs = some (.stop status)) : status ≠ .kOk := by
  simp only [ReadTurn.outcome] at h
  repeat' split at h
  all_goals cases h
  all_goals decide

theorem WriteTurn.outcome_stop {timeoutMs : Int} {t : WriteTurn} {status : IoStatus}
    (h : t.outcome timeoutMs = some (.stop status)) : status ≠ .kOk := by
  simp only [WriteTurn.outcome] at h
  repeat' split at h
  all_goals cases h
  all_goals decide

/-! ## Calls -/

deriving instance DecidableEq for Reading

/-- A turn of a call of `read_message`.  A `recv` returns one byte at least and no more
than it was asked for. -/
def Reading.turn (maxPayload : Nat) (o : Outcome (List UInt8)) (r : Reading) :
    Option (Reading ⊕ (IoStatus × List UInt8)) :=
  match o with
  | .moved chunk =>
      if 0 < chunk.length ∧ chunk.length ≤ r.need then some (r.recv maxPayload chunk) else none
  | .again => some (.inl r)
  | .stop status => some (.inr (r.stop status))

/-- A turn of a call of `write_message`.  A `send` takes no more than it was offered. -/
def Writing.turn (data : List UInt8) (o : Outcome Nat) (w : Writing) :
    Option (Writing ⊕ IoStatus) :=
  match o with
  | .moved n => if n ≤ w.need data then some (w.send data n) else none
  | .again => some (.inl w)
  | .stop status => some (.inr status)

/-- The bytes that a turn takes in. -/
def Outcome.chunk : Outcome (List UInt8) → List UInt8
  | .moved chunk => chunk
  | .again | .stop _ => []

/-- The bytes that a turn puts out. -/
def Writing.handed (data : List UInt8) (o : Outcome Nat) (w : Writing) : List UInt8 :=
  match o with
  | .moved n => w.chunk data n
  | .again | .stop _ => []

/-! ## What a turn can do -/

section Reading

variable {maxPayload : Nat} {r : Reading} {o : Outcome (List UInt8)}

theorem Reading.turn_cases {call : Reading ⊕ (IoStatus × List UInt8)}
    (h : r.turn maxPayload o = some call) :
    (∃ chunk, o = .moved chunk ∧ 0 < chunk.length ∧ chunk.length ≤ r.need ∧
      call = r.recv maxPayload chunk) ∨
    (o = .again ∧ call = .inl r) ∨
    ∃ status, o = .stop status ∧ call = .inr (r.stop status) := by
  cases o with
  | moved chunk =>
      simp only [Reading.turn] at h
      split at h
      next hlen =>
        cases h
        exact .inl ⟨chunk, rfl, hlen.1, hlen.2, rfl⟩
      next => cases h
  | again =>
      cases h
      exact .inr (.inl ⟨rfl, rfl⟩)
  | stop status =>
      cases h
      exact .inr (.inr ⟨status, rfl, rfl⟩)

/-- A call that has not returned wants one more byte at least. -/
theorem Reading.Has.need_pos {bytes : List UInt8} (h : r.Has bytes) : 0 < r.need := by
  cases r with
  | header got =>
      obtain ⟨-, hgot⟩ := h
      simp only [Reading.need]
      omega
  | payload len got =>
      obtain ⟨-, -, hgot⟩ := h
      simp only [Reading.need]
      omega

/-- A call of `read_message` that has taken what it has, has not taken a whole frame. -/
theorem Reading.Has.not_frame {r : Reading} {bytes payload : List UInt8} (h : r.Has bytes)
    (hpayload : payload.length < 2 ^ 32) : ¬ frame payload <+: bytes := by
  intro hin
  have hle := hin.length_le
  rw [length_frame] at hle
  cases r with
  | header got =>
      obtain ⟨rfl, hgot⟩ := h
      omega
  | payload len got =>
      obtain ⟨rfl, hlen, hgot⟩ := h
      obtain ⟨rest, hrest⟩ := hin
      have hdeclared := headerLength_frame hpayload rest
      rw [hrest, headerLength_header hlen] at hdeclared
      rw [List.length_append, length_header] at hle
      omega

/-- A length that has been accepted. -/
def Reading.Accepted (maxPayload : Nat) : Reading → Prop
  | .header _ => True
  | .payload len _ => len ≤ maxPayload

theorem Reading.Accepted.recv {r' : Reading} {chunk : List UInt8} (h : r.Accepted maxPayload)
    (hr : r.recv maxPayload chunk = .inl r') : r'.Accepted maxPayload := by
  cases r with
  | header got =>
      simp only [Reading.recv] at hr
      split at hr
      next =>
        cases hr
        trivial
      next =>
        split at hr
        next => cases hr
        next hle =>
          split at hr
          next => cases hr
          next =>
            cases hr
            exact Nat.not_lt.mp hle
  | payload len got =>
      simp only [Reading.recv] at hr
      split at hr
      next =>
        cases hr
        exact h
      next => cases hr

/-- A read that returns after a `recv` has its payload, within the bound, or it has
refused the header. -/
theorem Reading.recv_returns {bytes chunk : List UInt8} {status : IoStatus} {out : List UInt8}
    (h : r.Has bytes) (hacc : r.Accepted maxPayload) (hneed : chunk.length ≤ r.need)
    (hr : r.recv maxPayload chunk = .inr (status, out)) :
    (status = .kOk ∧ out.length ≤ maxPayload) ∨
      (status = .kProtocolError ∧ out = [] ∧ (bytes ++ chunk).length = 4 ∧
        maxPayload < headerLength (bytes ++ chunk)) := by
  cases r with
  | header got =>
      obtain ⟨rfl, hgot⟩ := h
      simp only [Reading.recv] at hr
      split at hr
      next => cases hr
      next hfull =>
        have hlen : (bytes ++ chunk).length = 4 := by
          simp only [Reading.need, List.length_append] at hneed hfull ⊢
          omega
        split at hr
        next hbig =>
          cases hr
          exact .inr ⟨rfl, rfl, hlen, hbig⟩
        next =>
          split at hr
          next =>
            cases hr
            exact .inl ⟨rfl, Nat.zero_le _⟩
          next => cases hr
  | payload len got =>
      obtain ⟨-, -, hgot⟩ := h
      simp only [Reading.recv] at hr
      split at hr
      next => cases hr
      next =>
        cases hr
        refine .inl ⟨rfl, ?_⟩
        simp only [Reading.Accepted, Reading.need, List.length_append] at hacc hneed ⊢
        omega

/-- A turn after which the call goes on. -/
theorem Reading.turn_more {r' : Reading} {bytes : List UInt8} (h : r.Has bytes)
    (hacc : r.Accepted maxPayload) (hturn : r.turn maxPayload o = some (.inl r')) :
    r'.Has (bytes ++ o.chunk) ∧ r'.Accepted maxPayload := by
  rcases Reading.turn_cases hturn with
    ⟨chunk, rfl, -, hneed, hrecv⟩ | ⟨rfl, hagain⟩ | ⟨status, -, hstop⟩
  · exact ⟨Reading.recv_more h hneed hrecv.symm, hacc.recv hrecv.symm⟩
  · cases hagain
    rw [Outcome.chunk, List.append_nil]
    exact ⟨h, hacc⟩
  · cases hstop

/-- A turn with which the call returns: it has its message, or it has refused the header,
or it gives up. -/
theorem Reading.turn_returns {bytes : List UInt8} {status : IoStatus} {out : List UInt8}
    (h : r.Has bytes) (hacc : r.Accepted maxPayload)
    (hturn : r.turn maxPayload o = some (.inr (status, out))) :
    (status = .kOk ∧ bytes ++ o.chunk = frame out ∧ out.length < 2 ^ 32 ∧
      out.length ≤ maxPayload) ∨
    (status = .kProtocolError ∧ out = [] ∧ (bytes ++ o.chunk).length = 4 ∧
      maxPayload < headerLength (bytes ++ o.chunk)) ∨
    (o = .stop status ∧ (status, out) = r.stop status) := by
  rcases Reading.turn_cases hturn with
    ⟨chunk, rfl, -, hneed, hrecv⟩ | ⟨rfl, hagain⟩ | ⟨status', rfl, hstop⟩
  · rcases Reading.recv_returns h hacc hneed hrecv.symm with ⟨rfl, hmax⟩ | hrefused
    · obtain ⟨hframe, hsize⟩ := Reading.recv_ok h hneed hrecv.symm
      exact .inl ⟨rfl, hframe, hsize, hmax⟩
    · exact .inr (.inl hrefused)
  · cases hagain
  · have hresult : (status, out) = r.stop status' := Sum.inr.inj hstop
    have hstatus : status = status' := by
      cases r <;> cases hresult <;> rfl
    subst hstatus
    exact .inr (.inr ⟨rfl, hresult⟩)

end Reading

section Writing

variable {data : List UInt8} {w : Writing} {o : Outcome Nat}

theorem Writing.turn_cases {call : Writing ⊕ IoStatus} (h : w.turn data o = some call) :
    (∃ n, o = .moved n ∧ n ≤ w.need data ∧ call = w.send data n) ∨
    (o = .again ∧ call = .inl w) ∨
    ∃ status, o = .stop status ∧ call = .inr status := by
  cases o with
  | moved n =>
      simp only [Writing.turn] at h
      split at h
      next hlen =>
        cases h
        exact .inl ⟨n, rfl, hlen, rfl⟩
      next => cases h
  | again =>
      cases h
      exact .inr (.inl ⟨rfl, rfl⟩)
  | stop status =>
      cases h
      exact .inr (.inr ⟨status, rfl, rfl⟩)

/-- A turn after which the call goes on. -/
theorem Writing.turn_more {w' : Writing} (h : w.Valid data)
    (hturn : w.turn data o = some (.inl w')) :
    w'.Valid data ∧ (frame data).take w.pos ++ w.handed data o = (frame data).take w'.pos := by
  rcases Writing.turn_cases hturn with ⟨n, rfl, hn, hsend⟩ | ⟨rfl, hagain⟩ | ⟨status, -, hstop⟩
  · obtain ⟨hvalid, hpos⟩ := Writing.send_more h hn hsend.symm
    rw [hpos]
    exact ⟨hvalid, h.take_append hn⟩
  · cases hagain
    exact ⟨h, List.append_nil _⟩
  · cases hstop

/-- A turn with which the call returns: the whole frame is out, or it gives up. -/
theorem Writing.turn_returns {status : IoStatus} (h : w.Valid data)
    (hturn : w.turn data o = some (.inr status)) :
    (status = .kOk ∧ (frame data).take w.pos ++ w.handed data o = frame data) ∨
      (o = .stop status ∧ w.handed data o = []) := by
  rcases Writing.turn_cases hturn with ⟨n, rfl, hn, hsend⟩ | ⟨rfl, hagain⟩ | ⟨status', rfl, hstop⟩
  · obtain ⟨rfl, hend⟩ := Writing.send_done h hn hsend.symm
    refine .inl ⟨rfl, ?_⟩
    have htake := h.take_append hn
    rw [hend, List.take_length] at htake
    exact htake
  · cases hagain
  · cases hstop
    exact .inr ⟨rfl, rfl⟩

theorem Writing.Valid.pos_lt (h : w.Valid data) : w.pos < (frame data).length := by
  rw [length_frame]
  cases w with
  | header sent =>
      simp only [Writing.Valid, Writing.pos] at h ⊢
      omega
  | payload sent =>
      simp only [Writing.Valid, Writing.pos] at h ⊢
      omega

theorem Writing.Valid.need_pos (h : w.Valid data) : 0 < w.need data := by
  cases w with
  | header sent =>
      simp only [Writing.Valid, Writing.need] at h ⊢
      omega
  | payload sent =>
      simp only [Writing.Valid, Writing.need] at h ⊢
      omega

end Writing

/-! ## Whole calls -/

/-- The turns of a call of `read_message` that is under way: what it returns, and the
pieces it has received.  A turn that never ends is `none`. -/
def Reading.loop (maxPayload : Nat) :
    Reading → List (Option (Outcome (List UInt8))) →
      Option ((IoStatus × List UInt8) × List (List UInt8))
  | _, [] | _, none :: _ => none
  | r, some o :: turns =>
      let piece := if o.chunk = [] then [] else [o.chunk]
      match r.turn maxPayload o with
      | none => none
      | some (.inr result) => some (result, piece)
      | some (.inl r') =>
          match r'.loop maxPayload turns with
          | none => none
          | some (result, pieces) => some (result, piece ++ pieces)

/-- The turns of a call of `write_message` that is under way: what it returns, and the
pieces it has handed over. -/
def Writing.loop (data : List UInt8) :
    Writing → List (Option (Outcome Nat)) → Option (IoStatus × List (List UInt8))
  | _, [] | _, none :: _ => none
  | w, some o :: turns =>
      let piece := if w.handed data o = [] then [] else [w.handed data o]
      match w.turn data o with
      | none => none
      | some (.inr status) => some (status, piece)
      | some (.inl w') =>
          match w'.loop data turns with
          | none => none
          | some (status, pieces) => some (status, piece ++ pieces)

/-- A call of `write_message`. -/
def writeCall (data : List UInt8) (turns : List (Option (Outcome Nat))) :
    Option (IoStatus × List (List UInt8)) :=
  match Writing.start data with
  | .inr status => some (status, [])
  | .inl w => w.loop data turns

theorem flatten_piece (chunk : List UInt8) :
    (if chunk = [] then [] else [chunk]).flatten = chunk := by
  split
  next h => exact h.symm
  next => exact List.append_nil _

/-- What a call under way hands over continues the frame, to its end if it returns
`kOk`, and not to its end if it gives up. -/
theorem Writing.loop_handed {data : List UInt8} {w : Writing} {turns : List (Option (Outcome Nat))}
    {status : IoStatus} {pieces : List (List UInt8)} (hvalid : w.Valid data)
    (hstop : ∀ status, some (.stop status) ∈ turns → status ≠ .kOk)
    (h : w.loop data turns = some (status, pieces)) :
    (status = .kOk ∧ (frame data).take w.pos ++ pieces.flatten = frame data) ∨
      (status ≠ .kOk ∧ ∃ n < (frame data).length,
        (frame data).take w.pos ++ pieces.flatten = (frame data).take n) := by
  induction turns generalizing w pieces with
  | nil => cases h
  | cons turn turns ih =>
      cases turn with
      | none => cases h
      | some o =>
          simp only [Writing.loop] at h
          split at h
          next => cases h
          next status' hturn =>
            cases h
            rw [flatten_piece]
            rcases Writing.turn_returns hvalid hturn with ⟨rfl, hframe⟩ | ⟨rfl, hnothing⟩
            · exact .inl ⟨rfl, hframe⟩
            · refine .inr ⟨hstop _ List.mem_cons_self, w.pos, hvalid.pos_lt, ?_⟩
              rw [hnothing, List.append_nil]
          next w' hturn =>
            split at h
            next => cases h
            next status' pieces' hloop =>
              cases h
              obtain ⟨hvalid', htake⟩ := Writing.turn_more hvalid hturn
              have hrest := ih hvalid'
                (fun status hmem => hstop status (List.mem_cons_of_mem _ hmem)) hloop
              rw [List.flatten_append, flatten_piece, ← List.append_assoc, htake]
              exact hrest

/-- What a call hands over: the whole frame if it returns `kOk`, and a proper part of
it if not. -/
theorem writeCall_handed {data : List UInt8} {turns : List (Option (Outcome Nat))}
    {status : IoStatus} {pieces : List (List UInt8)}
    (hstop : ∀ status, some (.stop status) ∈ turns → status ≠ .kOk)
    (h : writeCall data turns = some (status, pieces)) :
    pieces.flatten <+: frame data ∧ (status = .kOk ↔ pieces.flatten = frame data) := by
  have hpart : ∀ n < (frame data).length, (frame data).take n ≠ frame data := by
    intro n hn heq
    have hlen := congrArg List.length heq
    rw [List.length_take] at hlen
    omega
  simp only [writeCall] at h
  split at h
  next status' hstart =>
    cases h
    have hne := Writing.start_fail hstart
    refine ⟨List.nil_prefix, iff_of_false hne ?_⟩
    have hzero := hpart 0 (by rw [length_frame]; omega)
    simpa using hzero
  next w hstart =>
    obtain ⟨hvalid, hpos, -⟩ := Writing.valid_start hstart
    have hhanded := Writing.loop_handed hvalid hstop h
    rw [hpos, List.take_zero, List.nil_append] at hhanded
    rcases hhanded with ⟨hok, hframe⟩ | ⟨hne, n, hn, htake⟩
    · exact ⟨hframe ▸ List.prefix_refl _, iff_of_true hok hframe⟩
    · rw [htake]
      exact ⟨List.take_prefix _ _, iff_of_false hne (hpart n hn)⟩

end InferenceRouter.Connection
