import InferenceRouter.Connection.Decoder
import InferenceRouter.Connection.Tls

/-!
# Messages over TLS

`read_message` and `write_message` of `tls.cpp` on a `Stream` with an `SSL`, against the ones
of `connection.cpp`.  The TLS overloads have loops of their own, a header that goes through
`byteSwap`, and calls whose length is narrowed to an `int`.  OpenSSL delivers the bytes of the
other side in order and loses none.

A length of up to 16 MiB is an `int`, and on a little-endian host the swap is `htonl`.  Then
every turn of a TLS call is a turn of the plaintext call that moves the same bytes
(`readStream_run`, `writeStream_run`), and the results about the one hold of the other.
-/

namespace InferenceRouter.Connection

open Interleaving

/-! ## The TLS overloads -/

/-- The length that `SSL_read` and `SSL_write` are given, `static_cast<int>` of what is
needed. -/
def sslLength (need : Nat) : Int := (need : Int).bmod (2 ^ 32)

/-- `SSL_read` returned `bytes`, in `read_message`. -/
def Reading.recvTls (maxPayload : Nat) (bytes : List UInt8) :
    Reading → Reading ⊕ (IoStatus × List UInt8)
  | .header got =>
      let hdr := got ++ bytes
      if hdr.length < 4 then .inl (.header hdr)
      else
        let len := tlsHeaderLength hdr
        if maxPayload < len then .inr (.kProtocolError, [])
        else if len = 0 then .inr (.kOk, [])
        else .inl (.payload len [])
  | .payload len got =>
      let out := got ++ bytes
      if out.length < len then .inl (.payload len out) else .inr (.kOk, out)

/-- A turn of `tls_read_exact`, after `pump_ssl`.  A call that succeeds moves one byte at
least and no more than its length. -/
def Reading.turnTls (maxPayload : Nat) (o : Outcome (List UInt8)) (r : Reading) :
    Option (Reading ⊕ (IoStatus × List UInt8)) :=
  match o with
  | .moved chunk =>
      if 0 < chunk.length ∧ chunk.length ≤ sslLength r.need then some (r.recvTls maxPayload chunk)
      else none
  | .again => none
  | .stop status => some (.inr (r.stop status))

/-- The bytes that an `SSL_write` which returned `n` has put out. -/
def Writing.chunkTls (data : List UInt8) (n : Nat) : Writing → List UInt8
  | .header sent => ((tlsHeader data.length).drop sent).take n
  | .payload sent => (data.drop sent).take n

def Writing.handedTls (data : List UInt8) (o : Outcome Nat) (w : Writing) : List UInt8 :=
  match o with
  | .moved n => w.chunkTls data n
  | .again | .stop _ => []

/-- A turn of `tls_write_exact`, after `pump_ssl`. -/
def Writing.turnTls (data : List UInt8) (o : Outcome Nat) (w : Writing) :
    Option (Writing ⊕ IoStatus) :=
  match o with
  | .moved n => if 0 < n ∧ n ≤ sslLength (w.need data) then some (w.send data n) else none
  | .again => none
  | .stop status => some (.inr status)

/-! ## Streams -/

/-- `pump_ssl` returns without a timeout or an error. -/
def pumpQuiet {α : Type} (timeoutMs : Int) (tries : List (SslTry α)) : Bool :=
  (pumpSsl timeoutMs tries).any Outcome.quiet

def Socket.stepTls (maxPayload : Nat) (timeoutMs : Int) (s : Socket)
    (tries : List (SslTry (List UInt8))) : Option Socket :=
  match s.call, pumpSsl timeoutMs tries with
  | .inl r, some o =>
      if o.fits s.bytes true = true then
        (r.turnTls maxPayload o).map (fun call => { call := call, bytes := o.rest s.bytes })
      else none
  | _, _ => none

/-- `read_message(Stream, ..)` on a connection that delivers `bytes` and then the end of the
stream. -/
def readStream (maxPayload : Nat) (timeoutMs : Int) (bytes : List UInt8) :
    Machine Socket (List (SslTry (List UInt8))) where
  init := { call := .inl .start, bytes := bytes }
  step := Socket.stepTls maxPayload timeoutMs

/-- A call of `write_message`, and the bytes that it has handed over. -/
structure Sender where
  call : Writing ⊕ IoStatus
  handed : List UInt8 := []

def Sender.step (timeoutMs : Int) (data : List UInt8) (s : Sender) (t : WriteTurn) :
    Option Sender :=
  match s.call, t.outcome timeoutMs with
  | .inl w, some o =>
      (w.turn data o).map (fun call => { call := call, handed := s.handed ++ w.handed data o })
  | _, _ => none

/-- `write_message(fd, ..)`. -/
def writeSocket (timeoutMs : Int) (data : List UInt8) : Machine Sender WriteTurn where
  init := { call := Writing.start data }
  step := Sender.step timeoutMs data

def Sender.stepTls (timeoutMs : Int) (data : List UInt8) (s : Sender)
    (tries : List (SslTry Nat)) : Option Sender :=
  match s.call, pumpSsl timeoutMs tries with
  | .inl w, some o =>
      (w.turnTls data o).map (fun call =>
        { call := call, handed := s.handed ++ w.handedTls data o })
  | _, _ => none

/-- `write_message(Stream, ..)`. -/
def writeStream (timeoutMs : Int) (data : List UInt8) : Machine Sender (List (SslTry Nat)) where
  init := { call := Writing.start data }
  step := Sender.stepTls timeoutMs data

/-! ## A turn of either kind -/

theorem sslLength_eq {n : Nat} (h : n < 2 ^ 31) : sslLength n = n :=
  Int.bmod_eq_of_le (by omega) (by omega)

theorem sslLength_le (n : Nat) : sslLength n ≤ n := by
  have hlt : sslLength n < 2 ^ 31 :=
    lt_of_lt_of_eq (Int.bmod_lt (x := n) (m := 2 ^ 32) (by omega)) (by norm_num)
  by_cases h : n < 2 ^ 31
  · exact (sslLength_eq h).le
  · omega

section Reading

variable {maxPayload : Nat} {r : Reading} {bytes : List UInt8}

theorem Reading.need_lt (h : r.Accepted maxPayload) (hmax : maxPayload < 2 ^ 31) :
    r.need < 2 ^ 31 := by
  cases r with
  | header got =>
      simp only [Reading.need]
      omega
  | payload len got =>
      simp only [Reading.need, Reading.Accepted] at h ⊢
      omega

theorem Reading.recvTls_eq {chunk : List UInt8} (h : r.Has bytes) (hchunk : chunk.length ≤ r.need) :
    r.recvTls maxPayload chunk = r.recv maxPayload chunk := by
  cases r with
  | header got =>
      simp only [Reading.recvTls, Reading.recv]
      split
      next => rfl
      next hfull =>
        have hlen : (got ++ chunk).length = 4 := by
          obtain ⟨-, hgot⟩ := h
          simp only [Reading.need, List.length_append] at hchunk hfull ⊢
          omega
        rw [tlsHeaderLength_eq hlen]
  | payload len got => rfl

/-- A turn of the TLS call is the turn of the plaintext call. -/
theorem Reading.turnTls_eq {o : Outcome (List UInt8)} {call : Reading ⊕ (IoStatus × List UInt8)}
    (h : r.Has bytes) (hturn : r.turnTls maxPayload o = some call) :
    r.turn maxPayload o = some call := by
  cases o with
  | moved chunk =>
      simp only [Reading.turnTls] at hturn
      split at hturn
      next hlen =>
        have hneed : chunk.length ≤ r.need :=
          Int.ofNat_le.mp (hlen.2.trans (sslLength_le r.need))
        rw [Reading.recvTls_eq h hneed] at hturn
        simp only [Reading.turn, if_pos (And.intro hlen.1 hneed)]
        exact hturn
      next => cases hturn
  | again => cases hturn
  | stop status => exact hturn

end Reading

/-- The plaintext turn that comes to the same. -/
theorem exists_readTurn {o : Outcome (List UInt8)} (hquiet : o.quiet = true) (hagain : o ≠ .again)
    (timeoutMs : Int) : ∃ t : ReadTurn, t.outcome timeoutMs = some o := by
  cases o with
  | moved chunk => exact ⟨{ recv := .bytes chunk }, by simp [ReadTurn.outcome]⟩
  | again => exact absurd rfl hagain
  | stop status =>
      cases status with
      | kPeerClosed => exact ⟨{ recv := .eof }, by simp [ReadTurn.outcome]⟩
      | kOk | kTimeout | kProtocolError | kIoError => cases hquiet

theorem exists_writeTurn {o : Outcome Nat} (hquiet : o.quiet = true) (hagain : o ≠ .again)
    (timeoutMs : Int) : ∃ t : WriteTurn, t.outcome timeoutMs = some o := by
  cases o with
  | moved n => exact ⟨{ send := .sent n }, by simp [WriteTurn.outcome]⟩
  | again => exact absurd rfl hagain
  | stop status =>
      cases status with
      | kPeerClosed => exact ⟨{ send := .failed .epipe }, by simp [WriteTurn.outcome]⟩
      | kOk | kTimeout | kProtocolError | kIoError => cases hquiet

section Writing

variable {data : List UInt8} {w : Writing} {o : Outcome Nat}

theorem Writing.need_lt (hdata : data.length < 2 ^ 31) : w.need data < 2 ^ 31 := by
  cases w <;> simp only [Writing.need] <;> omega

theorem Writing.handedTls_eq (hdata : data.length < 2 ^ 31) :
    w.handedTls data o = w.handed data o := by
  cases o with
  | moved n =>
      cases w with
      | header sent =>
          simp only [Writing.handedTls, Writing.chunkTls, Writing.handed, Writing.chunk]
          rw [tlsHeader_eq (by omega)]
      | payload sent => rfl
  | again | stop => rfl

theorem Writing.valid_of_need_pos (h : 0 < w.need data) : w.Valid data := by
  cases w <;> simp only [Writing.need, Writing.Valid] at h ⊢ <;> omega

theorem Writing.turnTls_moved {n : Nat} {call : Writing ⊕ IoStatus} (hdata : data.length < 2 ^ 31)
    (hturn : w.turnTls data (.moved n) = some call) :
    w.Valid data ∧ 0 < n ∧ n ≤ w.need data ∧ w.send data n = call := by
  simp only [Writing.turnTls, sslLength_eq (Writing.need_lt hdata), Nat.cast_le] at hturn
  split at hturn
  next hn =>
    obtain ⟨hpos, hle⟩ := hn
    exact ⟨Writing.valid_of_need_pos (Nat.lt_of_lt_of_le hpos hle), hpos, hle,
      Option.some.inj hturn⟩
  next => cases hturn

theorem Writing.turnTls_eq {call : Writing ⊕ IoStatus} (hdata : data.length < 2 ^ 31)
    (hturn : w.turnTls data o = some call) : w.turn data o = some call := by
  cases o with
  | moved n =>
      obtain ⟨-, -, hle, hsend⟩ := Writing.turnTls_moved hdata hturn
      simp only [Writing.turn, if_pos hle, hsend]
  | again => cases hturn
  | stop status => exact hturn

end Writing

/-! ## Reading -/

section ReadStream

variable {maxPayload : Nat} {timeoutMs : Int} {s : List UInt8}

theorem Socket.stepTls_cases {k k' : Socket} {tries : List (SslTry (List UInt8))}
    (h : k.stepTls maxPayload timeoutMs tries = some k') :
    ∃ r o, k.call = .inl r ∧ pumpSsl timeoutMs tries = some o ∧ o.fits k.bytes true = true ∧
      r.turnTls maxPayload o = some k'.call ∧ k'.bytes = o.rest k.bytes := by
  simp only [Socket.stepTls] at h
  split at h
  next r o hcall hout =>
    split at h
    next hfits =>
      obtain ⟨call, hturn, rfl⟩ := Option.map_eq_some_iff.mp h
      exact ⟨r, o, hcall, hout, hfits, hturn, rfl⟩
    next => cases h
  next => cases h

/-- A turn of the TLS reader is a turn of the plaintext reader, and not one to be repeated. -/
theorem Socket.Follows.stepTls {k k' : Socket} {tries : List (SslTry (List UInt8))}
    (h : k.Follows maxPayload s) (hquiet : pumpQuiet timeoutMs tries = true)
    (hstep : k.stepTls maxPayload timeoutMs tries = some k') :
    ∃ t : ReadTurn, (t.quiet timeoutMs = true ∧ t.productive timeoutMs = true) ∧
      k.step maxPayload timeoutMs t = some k' ∧ k'.Follows maxPayload s := by
  obtain ⟨r, o, hcall, hout, hfits, hturn, hbytes⟩ := Socket.stepTls_cases hstep
  have hr := h
  simp only [Socket.Follows, hcall] at hr
  obtain ⟨taken, -, hhas, -⟩ := hr
  have hagain := pumpSsl_ne_again hout
  rw [pumpQuiet, hout, Option.any_some] at hquiet
  obtain ⟨t, ht⟩ := exists_readTurn hquiet hagain timeoutMs
  have htquiet : t.quiet timeoutMs = true := by rw [ReadTurn.quiet, ht, Option.any_some, hquiet]
  have htprod : t.productive timeoutMs = true := by
    rw [ReadTurn.productive, ht, Option.any_some]
    cases o with
    | again => exact absurd rfl hagain
    | moved | stop => rfl
  have hplain : k.step maxPayload timeoutMs t = some k' := by
    simp only [Socket.step, hcall, ht, if_pos hfits, Reading.turnTls_eq hhas hturn,
      Option.map_some, ← hbytes]
  exact ⟨t, ⟨htquiet, htprod⟩, hplain, h.step htquiet hplain⟩

theorem readStream_run {pumps : List (List (SslTry (List UInt8)))}
    {k : Socket} (hquiet : ∀ tries ∈ pumps, pumpQuiet timeoutMs tries = true)
    (h : (readStream maxPayload timeoutMs s).run pumps = some k) :
    ∃ turns : List ReadTurn, turns.length = pumps.length ∧
      (∀ t ∈ turns, t.quiet timeoutMs = true ∧ t.productive timeoutMs = true) ∧
      (readSocket maxPayload timeoutMs s).run turns = some k ∧ k.Follows maxPayload s := by
  refine Machine.exec_simulates (I := Socket.Follows maxPayload s)
    (n := readSocket maxPayload timeoutMs s) ?_ hquiet ?_ h
  · intro k tries k' hk htries hstep
    exact hk.stepTls htries hstep
  · exact ⟨[], rfl, Reading.has_start, trivial⟩

/-- Until the call has returned, the connection has something for it. -/
theorem Socket.Follows.enabledTls {k : Socket} {r : Reading} (hmax : maxPayload < 2 ^ 31)
    (h : k.Follows maxPayload s) (hcall : k.call = .inl r) (timeoutMs : Int) :
    ∃ tries k', pumpQuiet timeoutMs tries = true ∧
      k.stepTls maxPayload timeoutMs tries = some k' := by
  simp only [Socket.Follows, hcall] at h
  obtain ⟨taken, -, hhas, hacc⟩ := h
  cases hbytes : k.bytes with
  | nil =>
      refine ⟨[{ result := .zeroReturn }], { call := .inr (r.stop .kPeerClosed), bytes := [] }, ?_⟩
      simp [pumpQuiet, pumpSsl, Socket.stepTls, hcall, hbytes, Outcome.quiet, Outcome.fits,
        Outcome.rest, Reading.turnTls]
  | cons b rest =>
      have hneed : (1 : Int) ≤ sslLength r.need := by
        rw [sslLength_eq (Reading.need_lt hacc hmax)]
        exact Int.ofNat_le.mpr hhas.need_pos
      refine ⟨[{ result := .done [b] }], { call := r.recvTls maxPayload [b], bytes := rest }, ?_⟩
      simp [pumpQuiet, pumpSsl, Socket.stepTls, hcall, hbytes, Outcome.quiet, Outcome.fits,
        Outcome.rest, Reading.turnTls, hneed]

/-- What is known after some turns of a TLS call that was given the plaintext `s`. -/
structure TlsReads (maxPayload : Nat) (timeoutMs : Int) (s : List UInt8)
    (pumps : List (List (SslTry (List UInt8)))) (k : Socket) : Prop where
  /-- A call that has returned agrees with every plaintext call on `s` that has. -/
  returned : ∀ status out, k.call = .inr (status, out) → ∀ (timeoutMs' : Int)
    (turns : List ReadTurn) (k' : Socket), (∀ t ∈ turns, t.quiet timeoutMs' = true) →
    (readSocket maxPayload timeoutMs' s).run turns = some k' → ∀ status' out',
    k'.call = .inr (status', out') → status = status' ∧
      (status = .kOk → out = out' ∧ s.length - k.bytes.length = s.length - k'.bytes.length)
  /-- A call that has not returned has had fewer turns than there are bytes and an end. -/
  running : ∀ r, k.call = .inl r → pumps.length < s.length + 1
  /-- And another one can follow. -/
  enabled : ∀ r, k.call = .inl r → ∃ tries k', pumpQuiet timeoutMs tries = true ∧
    k.stepTls maxPayload timeoutMs tries = some k'

theorem tlsReads_run (hmax : maxPayload < 2 ^ 31) {pumps : List (List (SslTry (List UInt8)))}
    {k : Socket} (hquiet : ∀ tries ∈ pumps, pumpQuiet timeoutMs tries = true)
    (h : (readStream maxPayload timeoutMs s).run pumps = some k) :
    TlsReads maxPayload timeoutMs s pumps k := by
  obtain ⟨turns, hlen, hturns, hrun, hfollows⟩ := readStream_run hquiet h
  have hagrees := Socket.agrees_run hrun (fun t ht => (hturns t ht).1)
  constructor
  case returned =>
    intro status out hcall timeoutMs' turns' k' hquiet' hrun' status' out' hcall'
    have hsame := (hagrees.returned status out hcall).1
    have hsame' := ((Socket.agrees_run hrun' hquiet').returned status' out' hcall').1
    rw [← hsame', Prod.mk.injEq, Prod.mk.injEq] at hsame
    obtain ⟨⟨hstatus, hout⟩, hbytes⟩ := hsame
    exact ⟨hstatus, fun _ => ⟨hout, by rw [hbytes]⟩⟩
  case running =>
    intro r hcall
    have hlt := hagrees.running r hcall
    rwa [List.countP_eq_length.mpr (fun t ht => (hturns t ht).2), hlen] at hlt
  case enabled =>
    intro r hcall
    exact hfollows.enabledTls hmax hcall timeoutMs

end ReadStream

/-! ## Writing -/

section WriteStream

variable {timeoutMs : Int} {data : List UInt8}

/-- What a call of `write_message` has handed over. -/
def Sender.Follows (data : List UInt8) (k : Sender) : Prop :=
  match k.call with
  | .inl w => w.Valid data ∧ k.handed = (frame data).take w.pos
  | .inr status => status = .kOk → k.handed = frame data

theorem Sender.Follows.turn {k k' : Sender} {w : Writing} {o : Outcome Nat} (h : k.Follows data)
    (hcall : k.call = .inl w) (hstop : o ≠ .stop .kOk) (hturn : w.turn data o = some k'.call)
    (hhanded : k'.handed = k.handed ++ w.handed data o) : k'.Follows data := by
  simp only [Sender.Follows, hcall] at h
  obtain ⟨hvalid, htake⟩ := h
  rw [htake] at hhanded
  cases hk : k'.call with
  | inl w' =>
      rw [hk] at hturn
      obtain ⟨hvalid', htake'⟩ := Writing.turn_more hvalid hturn
      simp only [Sender.Follows, hk]
      exact ⟨hvalid', hhanded.trans htake'⟩
  | inr status =>
      rw [hk] at hturn
      simp only [Sender.Follows, hk]
      rcases Writing.turn_returns hvalid hturn with ⟨-, hframe⟩ | ⟨rfl, -⟩
      · exact fun _ => hhanded.trans hframe
      · rintro rfl
        exact absurd rfl hstop

theorem Sender.step_cases {k k' : Sender} {t : WriteTurn}
    (h : k.step timeoutMs data t = some k') :
    ∃ w o, k.call = .inl w ∧ t.outcome timeoutMs = some o ∧ w.turn data o = some k'.call ∧
      k'.handed = k.handed ++ w.handed data o := by
  simp only [Sender.step] at h
  split at h
  next w o hcall hout =>
    obtain ⟨call, hturn, rfl⟩ := Option.map_eq_some_iff.mp h
    exact ⟨w, o, hcall, hout, hturn, rfl⟩
  next => cases h

theorem Sender.stepTls_cases {k k' : Sender} {tries : List (SslTry Nat)}
    (h : k.stepTls timeoutMs data tries = some k') :
    ∃ w o, k.call = .inl w ∧ pumpSsl timeoutMs tries = some o ∧ w.turnTls data o = some k'.call ∧
      k'.handed = k.handed ++ w.handedTls data o := by
  simp only [Sender.stepTls] at h
  split at h
  next w o hcall hout =>
    obtain ⟨call, hturn, rfl⟩ := Option.map_eq_some_iff.mp h
    exact ⟨w, o, hcall, hout, hturn, rfl⟩
  next => cases h

theorem Sender.follows_start (hdata : data.length < 2 ^ 32) :
    Sender.Follows data { call := Writing.start data } := by
  have hstart : Writing.start data = .inl (.header 0) := if_neg (by omega)
  simp only [Sender.Follows, hstart]
  exact ⟨by simp [Writing.Valid], rfl⟩

/-- A plaintext call that has returned `kOk` has put out the frame. -/
theorem writeSocket_run (hdata : data.length < 2 ^ 32) {turns : List WriteTurn} {k : Sender}
    (h : (writeSocket timeoutMs data).run turns = some k) : k.Follows data := by
  refine Machine.exec_invariant ?_ (Sender.follows_start hdata) h
  intro k t k' hk hstep
  obtain ⟨w, o, hcall, hout, hturn, hhanded⟩ := Sender.step_cases hstep
  refine hk.turn hcall ?_ hturn hhanded
  rintro rfl
  exact WriteTurn.outcome_stop hout rfl

/-- A turn of the TLS writer is a turn of the plaintext writer. -/
theorem Sender.stepTls_step {k k' : Sender} {tries : List (SslTry Nat)}
    (hdata : data.length < 2 ^ 31) (hquiet : pumpQuiet timeoutMs tries = true)
    (hstep : k.stepTls timeoutMs data tries = some k') :
    ∃ t : WriteTurn, k.step timeoutMs data t = some k' := by
  obtain ⟨w, o, hcall, hout, hturn, hhanded⟩ := Sender.stepTls_cases hstep
  rw [pumpQuiet, hout, Option.any_some] at hquiet
  obtain ⟨t, ht⟩ := exists_writeTurn hquiet (pumpSsl_ne_again hout) timeoutMs
  refine ⟨t, ?_⟩
  rw [Writing.handedTls_eq hdata] at hhanded
  simp only [Sender.step, hcall, ht, Writing.turnTls_eq hdata hturn, Option.map_some, ← hhanded]

theorem writeStream_run (hdata : data.length < 2 ^ 31) {pumps : List (List (SslTry Nat))}
    {k : Sender} (hquiet : ∀ tries ∈ pumps, pumpQuiet timeoutMs tries = true)
    (h : (writeStream timeoutMs data).run pumps = some k) :
    ∃ turns, turns.length = pumps.length ∧ (writeSocket timeoutMs data).run turns = some k := by
  obtain ⟨turns, hlen, -, hrun, -⟩ := Machine.exec_simulates (I := fun _ => True)
    (B := fun _ => True) (n := writeSocket timeoutMs data)
    (fun k tries k' _ htries hstep => by
      obtain ⟨t, ht⟩ := Sender.stepTls_step hdata htries hstep
      exact ⟨t, trivial, ht, trivial⟩) hquiet trivial h
  exact ⟨turns, hlen, hrun⟩

/-- How many bytes a call has left to put out. -/
def Sender.left (data : List UInt8) (k : Sender) : Nat :=
  match k.call with
  | .inl w => (frame data).length - w.pos
  | .inr _ => 0

/-- Every turn of a call that goes on puts out a byte. -/
theorem writeStream_length (hdata : data.length < 2 ^ 31) {pumps : List (List (SslTry Nat))}
    {k : Sender} {w : Writing} (h : (writeStream timeoutMs data).run pumps = some k)
    (hcall : k.call = .inl w) : pumps.length + k.left data ≤ (frame data).length := by
  have hle := Machine.countP_add_rank_le (R := fun k : Sender => ∃ w, k.call = .inl w)
    (f := Sender.left data) (p := fun _ => true) ?_ ?_ h ⟨w, hcall⟩
  · rw [List.countP_true] at hle
    have hstart : (writeStream timeoutMs data).init.left data ≤ (frame data).length := by
      simp only [Sender.left]
      split
      next => exact Nat.sub_le _ _
      next => exact Nat.zero_le _
    omega
  · intro k tries k' hstep
    obtain ⟨w, -, hcall, -⟩ := Sender.stepTls_cases hstep
    exact ⟨w, hcall⟩
  · rintro k tries k' hstep ⟨w', hcall'⟩
    obtain ⟨w, o, hcall, -, hturn, -⟩ := Sender.stepTls_cases hstep
    rw [hcall'] at hturn
    cases o with
    | moved n =>
        obtain ⟨hvalid, hmoved, hle, hsend⟩ := Writing.turnTls_moved hdata hturn
        obtain ⟨hvalid', hpos⟩ := Writing.send_more hvalid hle hsend
        have hlt := hvalid'.pos_lt
        simp only [Sender.left, hcall, hcall', Bool.toNat_true]
        omega
    | again | stop => cases hturn

/-- What is known after some turns of a TLS call that was given the payload `data`. -/
structure TlsWrites (timeoutMs : Int) (data : List UInt8) (pumps : List (List (SslTry Nat)))
    (k : Sender) : Prop where
  /-- A plaintext call can be where this one is, with the same bytes out. -/
  plain : ∃ turns, (writeSocket timeoutMs data).run turns = some k
  /-- A call that has returned `kOk` has put out what every plaintext call has. -/
  returned : k.call = .inr .kOk → k.handed = frame data ∧ ∀ (timeoutMs' : Int)
    (turns : List WriteTurn) (k' : Sender), (writeSocket timeoutMs' data).run turns = some k' →
    k'.call = .inr .kOk → k.handed = k'.handed
  /-- It returns `kOk` unless the connection was shut down. -/
  sent : (∀ tries ∈ pumps, ∃ n, pumpSsl timeoutMs tries = some (.moved n)) →
    ∀ status, k.call = .inr status → status = .kOk
  /-- A call that has not returned has had fewer turns than the frame has bytes. -/
  running : ∀ w, k.call = .inl w → pumps.length < (frame data).length
  /-- And another one can follow. -/
  enabled : ∀ w, k.call = .inl w → ∃ tries n k', pumpSsl timeoutMs tries = some (.moved n) ∧
    k.stepTls timeoutMs data tries = some k'

theorem writeStream_sent (hdata : data.length < 2 ^ 31) {pumps : List (List (SslTry Nat))}
    {k : Sender} (hmoved : ∀ tries ∈ pumps, ∃ n, pumpSsl timeoutMs tries = some (.moved n))
    (h : (writeStream timeoutMs data).run pumps = some k) {status : IoStatus}
    (hcall : k.call = .inr status) : status = .kOk := by
  have hreaches : (writeStream timeoutMs data).Reaches
      (fun tries => ∃ n, pumpSsl timeoutMs tries = some (.moved n)) _ k := ⟨pumps, hmoved, h⟩
  refine hreaches.invariant (P := fun k => ∀ status, k.call = .inr status → status = .kOk)
    ?_ ?_ status hcall
  · rintro k tries k' - ⟨n, hn⟩ hstep status hcall
    obtain ⟨w, o, -, hout, hturn, -⟩ := Sender.stepTls_cases hstep
    rw [hn] at hout
    cases hout
    obtain ⟨hvalid, -, hle, hsend⟩ := Writing.turnTls_moved hdata hturn
    rw [hcall] at hsend
    exact (Writing.send_done hvalid hle hsend).1
  · intro status hstart
    have hgo : Writing.start data = .inl (.header 0) := if_neg (by omega)
    have hcall : Writing.start data = .inr status := hstart
    rw [hgo] at hcall
    cases hcall

/-- Until the call has returned, the next byte can go. -/
theorem Sender.enabledTls {k : Sender} {w : Writing} (hdata : data.length < 2 ^ 31)
    (hcall : k.call = .inl w) (hvalid : w.Valid data) (timeoutMs : Int) :
    ∃ tries n k', pumpSsl timeoutMs tries = some (.moved n) ∧
      k.stepTls timeoutMs data tries = some k' := by
  have hneed : (1 : Int) ≤ sslLength (w.need data) := by
    rw [sslLength_eq (Writing.need_lt hdata)]
    exact Int.ofNat_le.mpr hvalid.need_pos
  refine ⟨[{ result := .done 1 }], 1,
    { call := w.send data 1, handed := k.handed ++ w.handedTls data (.moved 1) }, rfl, ?_⟩
  simp [Sender.stepTls, pumpSsl, hcall, Writing.turnTls, hneed]

theorem tlsWrites_run (hdata : data.length < 2 ^ 31) {pumps : List (List (SslTry Nat))}
    {k : Sender} (hquiet : ∀ tries ∈ pumps, pumpQuiet timeoutMs tries = true)
    (h : (writeStream timeoutMs data).run pumps = some k) :
    TlsWrites timeoutMs data pumps k := by
  obtain ⟨turns, -, hrun⟩ := writeStream_run hdata hquiet h
  have hsize : data.length < 2 ^ 32 := by omega
  have hfollows := writeSocket_run hsize hrun
  constructor
  case plain => exact ⟨turns, hrun⟩
  case returned =>
    intro hcall
    have hframe := hfollows
    simp only [Sender.Follows, hcall, true_implies] at hframe
    refine ⟨hframe, ?_⟩
    intro timeoutMs' turns' k' hrun' hcall'
    have hframe' := writeSocket_run hsize hrun'
    simp only [Sender.Follows, hcall', true_implies] at hframe'
    rw [hframe, hframe']
  case sent =>
    intro hmoved status hcall
    exact writeStream_sent hdata hmoved h hcall
  case running =>
    intro w hcall
    have hle := writeStream_length hdata h hcall
    simp only [Sender.Follows, hcall] at hfollows
    have hlt := hfollows.1.pos_lt
    simp only [Sender.left, hcall] at hle
    omega
  case enabled =>
    intro w hcall
    simp only [Sender.Follows, hcall] at hfollows
    exact Sender.enabledTls hdata hcall hfollows.1 timeoutMs

end WriteStream

/-! ## Both paths -/

/-- The two paths, for one payload and one limit. -/
structure TlsAgrees (maxPayload : Nat) (data : List UInt8) : Prop where
  writes : ∀ (timeoutMs : Int) (pumps : List (List (SslTry Nat))) (k : Sender),
    (∀ tries ∈ pumps, pumpQuiet timeoutMs tries = true) →
    (writeStream timeoutMs data).run pumps = some k → TlsWrites timeoutMs data pumps k
  reads : ∀ (timeoutMs : Int) (s : List UInt8) (pumps : List (List (SslTry (List UInt8))))
    (k : Socket), (∀ tries ∈ pumps, pumpQuiet timeoutMs tries = true) →
    (readStream maxPayload timeoutMs s).run pumps = some k → TlsReads maxPayload timeoutMs s pumps k
  /-- What TLS has written is read back without it. -/
  tlsToPlain : data.length ≤ maxPayload → ∀ (timeoutMs timeoutMs' : Int)
    (pumps : List (List (SslTry Nat))) (k : Sender) (rest : List UInt8) (turns : List ReadTurn)
    (k' : Socket), (∀ tries ∈ pumps, pumpQuiet timeoutMs tries = true) →
    (writeStream timeoutMs data).run pumps = some k → k.call = .inr .kOk →
    (∀ t ∈ turns, t.quiet timeoutMs' = true) →
    (readSocket maxPayload timeoutMs' (k.handed ++ rest)).run turns = some k' →
    ∀ result, k'.call = .inr result → result = (.kOk, data) ∧ k'.bytes = rest
  /-- And the other way round. -/
  plainToTls : data.length ≤ maxPayload → ∀ (timeoutMs timeoutMs' : Int)
    (turns : List WriteTurn) (k : Sender) (rest : List UInt8)
    (pumps : List (List (SslTry (List UInt8)))) (k' : Socket),
    (writeSocket timeoutMs data).run turns = some k → k.call = .inr .kOk →
    (∀ tries ∈ pumps, pumpQuiet timeoutMs' tries = true) →
    (readStream maxPayload timeoutMs' (k.handed ++ rest)).run pumps = some k' →
    ∀ result, k'.call = .inr result → result = (.kOk, data) ∧ k'.bytes = rest

/-- A frame that either path has written is what the plaintext reader returns. -/
theorem readSocket_frame {maxPayload : Nat} {timeoutMs : Int} {data rest : List UInt8}
    {turns : List ReadTurn} {k : Socket} {result : IoStatus × List UInt8}
    (hdata : data.length < 2 ^ 32) (hmax : data.length ≤ maxPayload)
    (hquiet : ∀ t ∈ turns, ReadTurn.quiet timeoutMs t = true)
    (h : (readSocket maxPayload timeoutMs (frame data ++ rest)).run turns = some k)
    (hcall : k.call = .inr result) : result = (.kOk, data) ∧ k.bytes = rest := by
  obtain ⟨status, out⟩ := result
  have hsame := ((Socket.agrees_run h hquiet).returned status out hcall).1
  rw [streamResult_frame hdata hmax rest, Prod.mk.injEq] at hsame
  exact hsame

theorem tls_framing_agrees (maxPayload : Nat) (data : List UInt8)
    (hmax : maxPayload ≤ kDefaultMaxPayload) (hdata : data.length ≤ kDefaultMaxPayload) :
    TlsAgrees maxPayload data := by
  simp only [kDefaultMaxPayload] at hmax hdata
  have hmax' : maxPayload < 2 ^ 31 := by omega
  have hdata' : data.length < 2 ^ 31 := by omega
  have hsize : data.length < 2 ^ 32 := by omega
  constructor
  case writes =>
    intro timeoutMs pumps k hquiet h
    exact tlsWrites_run hdata' hquiet h
  case reads =>
    intro timeoutMs s pumps k hquiet h
    exact tlsReads_run hmax' hquiet h
  case tlsToPlain =>
    intro hle timeoutMs timeoutMs' pumps k rest turns k' hquiet h hcall hturns h' result hresult
    rw [((tlsWrites_run hdata' hquiet h).returned hcall).1] at h'
    exact readSocket_frame hsize hle hturns h' hresult
  case plainToTls =>
    intro hle timeoutMs timeoutMs' turns k rest pumps k' h hcall hquiet h' result hresult
    have hframe := writeSocket_run hsize h
    simp only [Sender.Follows, hcall, true_implies] at hframe
    obtain ⟨turns', -, hturns, hrun, -⟩ := readStream_run hquiet h'
    rw [hframe] at hrun
    exact readSocket_frame hsize hle (fun t ht => (hturns t ht).1) hrun hresult

/-- The two bytes of a message in two calls of `SSL_write`, the second of them tried twice. -/
def twoPieces : List (List (SslTry Nat)) :=
  [[{ result := .done 4 }], [{ result := .want }, { result := .done 2 }]]

/-- And in three calls of `SSL_read`, cut elsewhere. -/
def otherPieces : List (List (SslTry (List UInt8))) :=
  [[{ result := .want }, { result := .done [0, 0, 0] }], [{ result := .done [2] }],
    [{ result := .done [7, 8] }]]

theorem tls_framing_agrees_twoPieces : ∃ k k',
    (writeStream 5000 [7, 8]).run twoPieces = some k ∧ k.call = .inr .kOk ∧
      k.handed = [0, 0, 0, 2, 7, 8] ∧
      (readStream 16 5000 [0, 0, 0, 2, 7, 8, 9]).run otherPieces = some k' ∧
      k'.call = .inr (.kOk, [7, 8]) ∧ k'.bytes = [9] ∧ TlsAgrees 16 [7, 8] := by
  refine ⟨_, _, rfl, rfl, by decide, rfl, by decide, by decide, ?_⟩
  exact tls_framing_agrees 16 [7, 8] (by decide) (by decide)

end InferenceRouter.Connection
