import InferenceRouter.Connection.Grammar
import InferenceRouter.Connection.TlsFraming

/-!
# The lengths of `SSL_read` and `SSL_write`

`tls_read_exact` and `tls_write_exact` convert what is still needed from a `size_t` to an `int`.
`write_message` admits every size that fits a header, and so does `read_message` if `max_payload`
allows it, but an `int` ends at `2 ^ 31`.  Below that the conversion changes nothing, and a TLS
loop can take every step that the plaintext loop can, to the end of the message.  From there on
the first call for the payload is given a negative length, and no result moves a byte.
-/

namespace InferenceRouter.Connection

open Interleaving

/-- What does not fit an `int` becomes negative. -/
theorem sslLength_wraps {n : Nat} (hbig : 2 ^ 31 ≤ n) (h : n < 2 ^ 32) :
    sslLength n = (n : Int) - 2 ^ 32 := by
  have hwrap : ((n : Int) - (2 ^ 32 : Nat)).bmod (2 ^ 32) = sslLength n := Int.sub_bmod_right _ _
  rw [← hwrap, Int.bmod_eq_of_le (by norm_num; omega) (by norm_num; omega)]
  norm_num

theorem one_le_sslLength_iff {n : Nat} (hpos : 0 < n) (h : n < 2 ^ 32) :
    1 ≤ sslLength n ↔ n < 2 ^ 31 := by
  constructor
  · intro hlen
    by_contra hbig
    rw [sslLength_wraps (Nat.not_lt.mp hbig) h] at hlen
    omega
  · intro hsmall
    rw [sslLength_eq hsmall]
    omega

/-- `pump_ssl` moves something. -/
def moves {α : Type} (timeoutMs : Int) (tries : List (SslTry α)) : Prop :=
  ∃ a, pumpSsl timeoutMs tries = some (.moved a)

/-! ## Writing -/

/-- A call of `write_message` that is about to call `SSL_write`, after some turns. -/
structure Sender.Proceeds (timeoutMs : Int) (data : List UInt8) (pumps : List (List (SslTry Nat)))
    (k : Sender) (w : Writing) : Prop where
  length_pos : 1 ≤ sslLength (w.need data)
  length_le : sslLength (w.need data) ≤ w.need data
  /-- The call takes what the plaintext call takes. -/
  plain : ∀ n, 0 < n → w.turnTls data (.moved n) = w.turn data (.moved n)
  /-- Every turn has moved a byte, and some are left. -/
  bounded : pumps.length < (frame data).length
  /-- The rest can follow. -/
  completes : ∃ k', (writeStream timeoutMs data).Reaches (moves timeoutMs) k k' ∧
    k'.call = .inr .kOk

/-- So is every call, wherever it is. -/
def WritesProceed (data : List UInt8) : Prop :=
  ∀ (timeoutMs : Int) (pumps : List (List (SslTry Nat))) (k : Sender) (w : Writing),
    (writeStream timeoutMs data).run pumps = some k → k.call = .inl w →
    k.Proceeds timeoutMs data pumps w

section Writing

variable {timeoutMs : Int} {data : List UInt8} {k k' : Sender} {w : Writing}

/-- A call that has not given up is in the message, or at its end. -/
def Sender.Valid (data : List UInt8) (k : Sender) : Prop :=
  match k.call with
  | .inl w => w.Valid data
  | .inr status => status = .kOk

theorem Sender.valid_stepTls (hdata : data.length < 2 ^ 31) {tries : List (SslTry Nat)}
    (hmoves : moves timeoutMs tries) (hstep : k.stepTls timeoutMs data tries = some k') :
    k'.Valid data ∧ k'.left data < k.left data := by
  obtain ⟨n, hmoved⟩ := hmoves
  obtain ⟨w, o, hcall, hout, hturn, -⟩ := Sender.stepTls_cases hstep
  rw [hmoved] at hout
  cases hout
  obtain ⟨hvalid, hpos, hle, hsend⟩ := Writing.turnTls_moved hdata hturn
  have hlt := hvalid.pos_lt
  cases hk : k'.call with
  | inl w' =>
      rw [hk] at hsend
      obtain ⟨hvalid', hpos'⟩ := Writing.send_more hvalid hle hsend
      simp only [Sender.Valid, Sender.left, hk, hcall]
      exact ⟨hvalid', by omega⟩
  | inr status =>
      rw [hk] at hsend
      obtain ⟨rfl, -⟩ := Writing.send_done hvalid hle hsend
      simp only [Sender.Valid, Sender.left, hk, hcall]
      exact ⟨trivial, by omega⟩

/-- A turn after which the call goes on has moved something. -/
theorem Sender.moves_of_inl {tries : List (SslTry Nat)} (hcall : k'.call = .inl w)
    (hstep : k.stepTls timeoutMs data tries = some k') : moves timeoutMs tries := by
  obtain ⟨w', o, -, hout, hturn, -⟩ := Sender.stepTls_cases hstep
  rw [hcall] at hturn
  cases o with
  | moved n => exact ⟨n, hout⟩
  | again | stop => cases hturn

theorem writeStream_valid (hdata : data.length < 2 ^ 31) {pumps : List (List (SslTry Nat))}
    (h : (writeStream timeoutMs data).run pumps = some k) (hcall : k.call = .inl w) :
    w.Valid data := by
  have hvalid : ∀ w, k.call = .inl w → w.Valid data := by
    refine Machine.exec_invariant (P := fun k => ∀ w, k.call = .inl w → w.Valid data) ?_ ?_ h
    · intro k tries k' _ hstep w hcall
      have hvalid := (Sender.valid_stepTls hdata (Sender.moves_of_inl hcall hstep) hstep).1
      rwa [Sender.Valid, hcall] at hvalid
    · intro w hstart
      exact (Writing.valid_start hstart).1
  exact hvalid w hcall

theorem Sender.Valid.completes (hdata : data.length < 2 ^ 31) (hvalid : k.Valid data) :
    ∃ k', (writeStream timeoutMs data).Reaches (moves timeoutMs) k k' ∧
      k'.call = .inr .kOk := by
  refine Machine.exists_reaches_of_rank (P := Sender.Valid data) (Sender.left data) ?_ ?_ hvalid
  · intro k tries k' _ hmoves hstep
    exact (Sender.valid_stepTls hdata hmoves hstep).1
  · intro k hvalid hgoal
    cases hcall : k.call with
    | inl w =>
        rw [Sender.Valid, hcall] at hvalid
        obtain ⟨tries, n, k', hmoved, hstep⟩ := Sender.enabledTls hdata hcall hvalid timeoutMs
        have hmoves : moves timeoutMs tries := ⟨n, hmoved⟩
        exact ⟨k', .single hmoves hstep, (Sender.valid_stepTls hdata hmoves hstep).2⟩
    | inr status =>
        rw [Sender.Valid, hcall] at hvalid
        exact absurd (by rw [hcall, hvalid]) hgoal

theorem writesProceed_of_lt (hdata : data.length < 2 ^ 31) : WritesProceed data := by
  intro timeoutMs pumps k w h hcall
  have hvalid := writeStream_valid hdata h hcall
  have hlength := sslLength_eq (Writing.need_lt (w := w) hdata)
  constructor
  case length_pos =>
    rw [hlength]
    exact Int.ofNat_le.mpr hvalid.need_pos
  case length_le => exact sslLength_le _
  case plain =>
    intro n hn
    simp only [Writing.turnTls, Writing.turn, hlength, Nat.cast_le, hn, true_and]
  case bounded =>
    have hle := writeStream_length hdata h hcall
    have hlt := hvalid.pos_lt
    simp only [Sender.left, hcall] at hle
    omega
  case completes =>
    refine Sender.Valid.completes hdata ?_
    rw [Sender.Valid, hcall]
    exact hvalid

theorem writeStream_header (timeoutMs : Int) (hpos : 0 < data.length)
    (hsize : data.length ≤ 0xFFFFFFFF) :
    (writeStream timeoutMs data).run [[{ result := .done 4 }]] =
      some { call := .inl (.payload 0), handed := tlsHeader data.length } := by
  have hstart : Writing.start data = .inl (.header 0) := if_neg (Nat.not_lt.mpr hsize)
  have hempty : data ≠ [] := List.ne_nil_of_length_pos hpos
  have hfour : (4 : Int) ≤ sslLength 4 := by decide
  have hheader : (tlsHeader data.length).take 4 = tlsHeader data.length := rfl
  simp [Machine.run, Machine.exec, writeStream, Sender.stepTls, pumpSsl, hstart, Writing.turnTls,
    Writing.need, hfour, Writing.send, hempty, Writing.handedTls, Writing.chunkTls, hheader]

theorem writesProceed_iff (hpos : 0 < data.length) (hsize : data.length ≤ 0xFFFFFFFF) :
    WritesProceed data ↔ data.length < 2 ^ 31 := by
  refine ⟨fun h => ?_, writesProceed_of_lt⟩
  have hlength := (h 0 _ _ _ (writeStream_header 0 hpos hsize) rfl).length_pos
  exact (one_le_sslLength_iff hpos (by omega)).mp hlength

end Writing

/-! ## Reading -/

/-- A call of `read_message` that is about to call `SSL_read`, after some turns, where the stream
goes on with `body` after the header of `len`. -/
structure Socket.Proceeds (maxPayload len : Nat) (timeoutMs : Int) (body : List UInt8)
    (pumps : List (List (SslTry (List UInt8)))) (k : Socket) (r : Reading) : Prop where
  length_pos : 1 ≤ sslLength r.need
  length_le : sslLength r.need ≤ r.need
  plain : ∀ chunk, r.turnTls maxPayload (.moved chunk) = r.turn maxPayload (.moved chunk)
  bounded : pumps.length + k.bytes.length ≤ 4 + body.length
  /-- If the payload is there, the rest can follow. -/
  completes : len ≤ body.length → ∃ k',
    (readStream maxPayload timeoutMs (header len ++ body)).Reaches (moves timeoutMs) k k' ∧
      k'.call = .inr (.kOk, body.take len)

def ReadsProceed (maxPayload len : Nat) : Prop :=
  ∀ (timeoutMs : Int) (body : List UInt8) (pumps : List (List (SslTry (List UInt8))))
    (k : Socket) (r : Reading),
    (readStream maxPayload timeoutMs (header len ++ body)).run pumps = some k → k.call = .inl r →
    k.Proceeds maxPayload len timeoutMs body pumps r

section Reading

variable {maxPayload len : Nat} {timeoutMs : Int} {s body : List UInt8} {k k' : Socket}
  {r : Reading} {tries : List (SslTry (List UInt8))}
  {pumps : List (List (SslTry (List UInt8)))}

theorem Socket.moves_of_inl (hcall : k'.call = .inl r)
    (hstep : k.stepTls maxPayload timeoutMs tries = some k') : moves timeoutMs tries := by
  obtain ⟨r', o, -, hout, -, hturn, -⟩ := Socket.stepTls_cases hstep
  rw [hcall] at hturn
  cases o with
  | moved chunk => exact ⟨chunk, hout⟩
  | again | stop => cases hturn

theorem Socket.Follows.moves (h : k.Follows maxPayload s) (hmoves : moves timeoutMs tries)
    (hstep : k.stepTls maxPayload timeoutMs tries = some k') : k'.Follows maxPayload s := by
  obtain ⟨chunk, hmoved⟩ := hmoves
  have hquiet : pumpQuiet timeoutMs tries = true := by
    rw [pumpQuiet, hmoved]
    rfl
  obtain ⟨t, -, -, hkept⟩ := h.stepTls hquiet hstep
  exact hkept

/-- A turn that moves something takes it from the stream. -/
theorem Socket.length_stepTls (hmoves : moves timeoutMs tries)
    (hstep : k.stepTls maxPayload timeoutMs tries = some k') :
    k'.bytes.length < k.bytes.length := by
  obtain ⟨chunk, hmoved⟩ := hmoves
  obtain ⟨r, o, -, hout, hfits, hturn, hbytes⟩ := Socket.stepTls_cases hstep
  rw [hmoved] at hout
  cases hout
  have hle := (List.isPrefixOf_iff_prefix.mp hfits).length_le
  simp only [Reading.turnTls] at hturn
  split at hturn
  next hlen =>
    rw [hbytes, Outcome.rest, List.length_drop]
    omega
  next => cases hturn

theorem readStream_follows (h : (readStream maxPayload timeoutMs s).run pumps = some k)
    (hcall : k.call = .inl r) : k.Follows maxPayload s := by
  have hfollows : ∀ r, k.call = .inl r → k.Follows maxPayload s := by
    refine Machine.exec_invariant (P := fun k => ∀ r, k.call = .inl r → k.Follows maxPayload s)
      ?_ ?_ h
    · intro k tries k' hk hstep r hcall
      obtain ⟨r₀, -, hcall₀, -⟩ := Socket.stepTls_cases hstep
      exact (hk r₀ hcall₀).moves (Socket.moves_of_inl hcall hstep) hstep
    · intro r _
      exact ⟨[], rfl, Reading.has_start, trivial⟩
  exact hfollows r hcall

theorem readStream_length (h : (readStream maxPayload timeoutMs s).run pumps = some k)
    (hcall : k.call = .inl r) : pumps.length + k.bytes.length ≤ s.length := by
  have hle := Machine.countP_add_rank_le (R := fun k : Socket => ∃ r, k.call = .inl r)
    (f := fun k => k.bytes.length) (p := fun _ => true) ?_ ?_ h ⟨r, hcall⟩
  · rwa [List.countP_true] at hle
  · intro k tries k' hstep
    obtain ⟨r, -, hcall, -⟩ := Socket.stepTls_cases hstep
    exact ⟨r, hcall⟩
  · rintro k tries k' hstep ⟨r', hcall'⟩
    have hlt := Socket.length_stepTls (Socket.moves_of_inl hcall' hstep) hstep
    rw [Bool.toNat_true]
    omega

/-- The length that a call is about to ask for is no more than the header says. -/
theorem Socket.Follows.need_lt (h : k.Follows maxPayload (header len ++ body))
    (hcall : k.call = .inl r) (hlen : len < 2 ^ 31) : 0 < r.need ∧ r.need < 2 ^ 31 := by
  simp only [Socket.Follows, hcall] at h
  obtain ⟨taken, hs, hhas, -⟩ := h
  refine ⟨hhas.need_pos, ?_⟩
  cases r with
  | header got =>
      simp only [Reading.need]
      omega
  | payload len' got =>
      obtain ⟨rfl, hlen', hgot⟩ := hhas
      rw [List.append_assoc] at hs
      obtain ⟨rfl, -⟩ := header_append_inj (by omega) hlen' hs
      simp only [Reading.need]
      omega

theorem Socket.enabledTls (hneed : 0 < r.need ∧ r.need < 2 ^ 31) (hcall : k.call = .inl r)
    (hbytes : k.bytes ≠ []) (timeoutMs : Int) :
    ∃ tries k', Connection.moves timeoutMs tries ∧
      k.stepTls maxPayload timeoutMs tries = some k' := by
  obtain ⟨b, rest, hrest⟩ := List.exists_cons_of_ne_nil hbytes
  have hlength : (1 : Int) ≤ sslLength r.need := by
    rw [sslLength_eq hneed.2]
    omega
  refine ⟨[{ result := .done [b] }], { call := r.recvTls maxPayload [b], bytes := rest },
    ⟨[b], rfl⟩, ?_⟩
  simp [pumpSsl, Socket.stepTls, hcall, hrest, Outcome.fits, Outcome.rest, Reading.turnTls,
    hlength]

/-- What follows the header is the payload, if there is enough of it. -/
theorem header_append_eq (hbody : len ≤ body.length) :
    header len ++ body = frame (body.take len) ++ body.drop len := by
  rw [frame, List.length_take_of_le hbody, List.append_assoc, List.take_append_drop]

theorem Socket.Follows.completes (hlen : len < 2 ^ 31) (hmax : len ≤ maxPayload)
    (hbody : len ≤ body.length) (h : k.Follows maxPayload (header len ++ body)) :
    ∃ k', (readStream maxPayload timeoutMs (header len ++ body)).Reaches
        (Connection.moves timeoutMs) k k' ∧
      k'.call = .inr (.kOk, body.take len) := by
  have htake : (body.take len).length = len := List.length_take_of_le hbody
  have hsize : (body.take len).length < 2 ^ 32 := by omega
  refine Machine.exists_reaches_of_rank (P := Socket.Follows maxPayload (header len ++ body))
    (fun k => k.bytes.length) ?_ ?_ h
  · intro k tries k' hk hmoves hstep
    exact hk.moves hmoves hstep
  · intro k hk hgoal
    cases hcall : k.call with
    | inl r =>
        have hbytes : k.bytes ≠ [] := by
          intro hempty
          rw [Socket.Follows, hcall] at hk
          obtain ⟨taken, hs, hhas, -⟩ := hk
          rw [hempty, List.append_nil, header_append_eq hbody] at hs
          exact hhas.not_frame hsize (hs ▸ List.prefix_append _ _)
        obtain ⟨tries, k', hmoves, hstep⟩ :=
          Socket.enabledTls (hk.need_lt hcall hlen) hcall hbytes timeoutMs
        exact ⟨k', .single hmoves hstep, Socket.length_stepTls hmoves hstep⟩
    | inr result =>
        rw [Socket.Follows, hcall] at hk
        simp only [header_append_eq hbody] at hk
        rw [streamResult_frame hsize (by omega), Prod.mk.injEq] at hk
        exact absurd (by rw [hcall, ← hk.1]) hgoal

theorem readsProceed_of_lt (hlen : len < 2 ^ 31) (hmax : len ≤ maxPayload) :
    ReadsProceed maxPayload len := by
  intro timeoutMs body pumps k r h hcall
  have hfollows := readStream_follows h hcall
  have hneed := hfollows.need_lt hcall hlen
  have hlength := sslLength_eq hneed.2
  constructor
  case length_pos =>
    rw [hlength]
    omega
  case length_le => exact sslLength_le _
  case plain =>
    intro chunk
    simp only [Socket.Follows, hcall] at hfollows
    obtain ⟨taken, -, hhas, -⟩ := hfollows
    simp only [Reading.turnTls, Reading.turn, hlength, Nat.cast_le]
    split
    next hchunk => rw [Reading.recvTls_eq hhas hchunk.2]
    next => rfl
  case bounded =>
    have hle := readStream_length h hcall
    rwa [List.length_append, length_header] at hle
  case completes =>
    intro hbody
    exact hfollows.completes hlen hmax hbody

theorem readStream_header (timeoutMs : Int) (hpos : 0 < len) (hmax : len ≤ maxPayload)
    (hlen : len < 2 ^ 32) (body : List UInt8) :
    (readStream maxPayload timeoutMs (header len ++ body)).run
        [[{ result := .done (header len) }]] =
      some { call := .inl (.payload len []), bytes := body } := by
  have hfour : (4 : Int) ≤ sslLength 4 := by decide
  have hheader : tlsHeaderLength (header len) = len := by
    rw [tlsHeaderLength_eq rfl]
    simpa using headerLength_header hlen []
  have hturn : Reading.start.turnTls maxPayload (.moved (header len)) =
      some (.inl (.payload len [])) := by
    simp [Reading.turnTls, Reading.start, Reading.need, hfour, Reading.recvTls, hheader,
      Nat.not_lt.mpr hmax, Nat.pos_iff_ne_zero.mp hpos]
  have hfits : (Outcome.moved (header len)).fits (header len ++ body) true = true :=
    List.isPrefixOf_iff_prefix.mpr (List.prefix_append _ _)
  simp only [Machine.run, Machine.exec_single_iff, readStream, Socket.stepTls, pumpSsl, hfits,
    if_true, hturn, Option.map_some, Outcome.rest, List.drop_left]

theorem readsProceed_iff (hpos : 0 < len) (hmax : len ≤ maxPayload) (hlen : len < 2 ^ 32) :
    ReadsProceed maxPayload len ↔ len < 2 ^ 31 := by
  refine ⟨fun h => ?_, fun hsmall => readsProceed_of_lt hsmall hmax⟩
  have hlength := (h 0 [] _ _ _ (readStream_header 0 hpos hmax hlen []) rfl).length_pos
  exact (one_le_sslLength_iff hpos hlen).mp hlength

end Reading

/-! ## Both -/

theorem tls_lengths_valid_iff (data : List UInt8) (maxPayload len : Nat) :
    (0 < data.length → data.length ≤ 0xFFFFFFFF →
      (WritesProceed data ↔ data.length < 2 ^ 31)) ∧
    (0 < len → len ≤ maxPayload → len < 2 ^ 32 →
      (ReadsProceed maxPayload len ↔ len < 2 ^ 31)) :=
  ⟨writesProceed_iff, readsProceed_iff⟩

theorem tls_lengths_valid_iff_twoBytes : WritesProceed [7, 8] ∧ ReadsProceed 16 2 := by
  obtain ⟨hwrite, hread⟩ := tls_lengths_valid_iff [7, 8] 16 2
  refine ⟨(hwrite (by decide) (by decide)).mpr (by decide), ?_⟩
  exact (hread (by decide) (by decide) (by decide)).mpr (by decide)

/-- A payload of two gibibytes. -/
def twoGiB : List UInt8 := List.replicate (2 ^ 31) 0

theorem length_twoGiB : twoGiB.length = 2 ^ 31 := List.length_replicate

/-- The header goes out, and the first call for the payload is given `INT_MIN`. -/
theorem negative_length_twoGiB : ∃ k,
    (writeStream 5000 twoGiB).run [[{ result := .done 4 }]] = some k ∧
      k.call = .inl (.payload 0) ∧ sslLength (Writing.need twoGiB (.payload 0)) = -2 ^ 31 ∧
      ¬ WritesProceed twoGiB := by
  have hpos : 0 < twoGiB.length := by
    rw [length_twoGiB]
    decide
  have hsize : twoGiB.length ≤ 0xFFFFFFFF := by
    rw [length_twoGiB]
    decide
  refine ⟨_, writeStream_header 5000 hpos hsize, rfl, ?_, ?_⟩
  · rw [Writing.need, length_twoGiB, sslLength_wraps (by decide) (by decide)]
    decide
  · rw [writesProceed_iff hpos hsize, length_twoGiB]
    decide

end InferenceRouter.Connection
