import InferenceRouter.Connection.Turns
import Mathlib.Tactic.IntervalCases

/-!
# The TLS layer

`pump_ssl`, the handshake and the byte order of `tls.cpp`.  `tls_read_exact` and
`tls_write_exact` are the loops of `connection.cpp` with one call of `pump_ssl` for a
turn, so `Reading.turn` and `Writing.turn` serve them too, and a turn is never repeated.
What OpenSSL returns is the environment's choice.

The length goes through a swap of its four bytes in place of `htonl` and `ntohl`.  On a
host that stores the least significant byte first the two are the same.
-/

namespace InferenceRouter.Connection

/-! ## `pump_ssl` -/

/-- What an `SSL_*` call returned, and what `SSL_get_error` says of it. -/
inductive SslResult (α : Type) where
  /-- A positive number. -/
  | done (a : α)
  /-- `SSL_ERROR_ZERO_RETURN`. -/
  | zeroReturn
  /-- `SSL_ERROR_WANT_READ` or `SSL_ERROR_WANT_WRITE`. -/
  | want
  /-- `SSL_ERROR_SYSCALL`, after a call that returned zero or less. -/
  | syscall (zero : Bool)
  | failed

/-- A turn of `pump_ssl`: the call, whether the deadline has passed, and the poll. -/
structure SslTry (α : Type) where
  result : SslResult α
  late : Bool := false
  poll : Poll := .ready

/-- `pump_ssl`; `none` while it has not returned. -/
def pumpSsl {α : Type} (timeoutMs : Int) : List (SslTry α) → Option (Outcome α)
  | [] => none
  | t :: tries =>
      match t.result with
      | .done a => some (.moved a)
      | .zeroReturn => some (.stop .kPeerClosed)
      | .syscall true => some (.stop .kPeerClosed)
      | .syscall false | .failed => some (.stop .kIoError)
      | .want =>
          if 0 ≤ timeoutMs ∧ t.late = true then some (.stop .kTimeout)
          else
            match t.poll with
            | .failed errno => if errno = .eintr then pumpSsl timeoutMs tries
                else some (.stop .kIoError)
            | .timeout => if 0 ≤ timeoutMs then some (.stop .kTimeout)
                else pumpSsl timeoutMs tries
            | .ready => pumpSsl timeoutMs tries

/-- `pump_ssl` moves something, or it gives up. -/
theorem pumpSsl_cases {α : Type} {timeoutMs : Int} {tries : List (SslTry α)} {o : Outcome α}
    (h : pumpSsl timeoutMs tries = some o) :
    (∃ a, o = .moved a) ∨ ∃ status, o = .stop status ∧ status ≠ .kOk := by
  induction tries with
  | nil => cases h
  | cons t tries ih =>
      simp only [pumpSsl] at h
      repeat' split at h
      all_goals first | exact ih h | cases h
      all_goals first | exact .inl ⟨_, rfl⟩ | exact .inr ⟨_, rfl, by decide⟩

theorem pumpSsl_stop {α : Type} {timeoutMs : Int} {tries : List (SslTry α)} {status : IoStatus}
    (h : pumpSsl timeoutMs tries = some (.stop status)) : status ≠ .kOk := by
  rcases pumpSsl_cases h with ⟨a, ha⟩ | ⟨status', heq, hstatus⟩
  · cases ha
  · cases heq
    exact hstatus

theorem pumpSsl_ne_again {α : Type} {timeoutMs : Int} {tries : List (SslTry α)} {o : Outcome α}
    (h : pumpSsl timeoutMs tries = some o) : o ≠ .again := by
  rcases pumpSsl_cases h with ⟨a, rfl⟩ | ⟨status, rfl, -⟩
  · exact nofun
  · exact nofun

/-! ## The handshake -/

/-- The calls on the client's descriptor that only a TLS connection makes. -/
inductive TlsCall where
  | new
  | setNonblocking
  | setFd
  | accept
  | shutdown
  | free
  deriving DecidableEq

/-- What the calls of `accept_handshake` return: whether there is a context, whether
`SSL_new`, `set_nonblocking` and `SSL_set_fd` succeed, and the turns of `SSL_accept`. -/
structure Handshake where
  ctx : Bool := true
  new : Bool := true
  setNonblocking : Bool := true
  setFd : Bool := true
  accept : List (SslTry Unit)

/-- `accept_handshake` up to its `safe_close`: the calls, and whether it returns an
`SSL`. -/
def Handshake.calls (timeoutMs : Int) (h : Handshake) : Option (List TlsCall × Bool) :=
  if h.ctx = false then some ([], false)
  else if h.new = false then some ([.new], false)
  else if h.setNonblocking = false then some ([.new, .setNonblocking, .free], false)
  else if h.setFd = false then some ([.new, .setNonblocking, .setFd, .free], false)
  else
    match pumpSsl timeoutMs h.accept with
    | none => none
    | some (.moved ()) => some ([.new, .setNonblocking, .setFd, .accept], true)
    | some _ => some ([.new, .setNonblocking, .setFd, .accept, .free], false)

/-! ## The byte order -/

/-- The swap that `tls.cpp` writes out. -/
def byteSwap (x : UInt32) : UInt32 :=
  ((x &&& 0xFF000000) >>> 24) ||| ((x &&& 0x00FF0000) >>> 8) ||| ((x &&& 0x0000FF00) <<< 8) |||
    ((x &&& 0x000000FF) <<< 24)

/-- The bytes of a word in memory, least significant first. -/
def memoryBytes (x : UInt32) : List UInt8 :=
  [x.toUInt8, (x >>> 8).toUInt8, (x >>> 16).toUInt8, (x >>> 24).toUInt8]

/-- `hdr` after the swap and the `memcpy` of `write_message`. -/
def tlsHeader (size : Nat) : List UInt8 := memoryBytes (byteSwap (.ofNat size))

/-- The word that has these bytes in memory. -/
def memoryWord : List UInt8 → UInt32
  | a :: b :: c :: d :: _ =>
      a.toUInt32 ||| (b.toUInt32 <<< 8) ||| (c.toUInt32 <<< 16) ||| (d.toUInt32 <<< 24)
  | _ => 0

/-- `len` after the `memcpy` and the swap of `read_message`. -/
def tlsHeaderLength (hdr : List UInt8) : Nat := (byteSwap (memoryWord hdr)).toNat

theorem byteSwap_byteSwap (x : UInt32) : byteSwap (byteSwap x) = x := by
  apply UInt32.toBitVec_inj.mp
  simp only [byteSwap, UInt32.toBitVec_or, UInt32.toBitVec_and, UInt32.toBitVec_shiftLeft,
    UInt32.toBitVec_shiftRight]
  ext i hi
  simp
  interval_cases i <;> simp

theorem memoryWord_memoryBytes (x : UInt32) : memoryWord (memoryBytes x) = x := by
  apply UInt32.toBitVec_inj.mp
  simp only [memoryWord, memoryBytes, UInt32.toBitVec_or, UInt32.toBitVec_shiftLeft,
    UInt8.toBitVec_toUInt32, UInt32.toBitVec_toUInt8, UInt32.toBitVec_shiftRight]
  ext i hi
  simp
  interval_cases i <;> simp

/-- The bytes of the swapped word are those of the word, the other way round. -/
theorem memoryBytes_byteSwap (x : UInt32) :
    memoryBytes (byteSwap x) =
      [(x >>> 24).toUInt8, (x >>> 16).toUInt8, (x >>> 8).toUInt8, x.toUInt8] := by
  simp only [memoryBytes, List.cons.injEq, and_true]
  refine ⟨?_, ?_, ?_, ?_⟩
  all_goals
    apply UInt8.toBitVec_inj.mp
    simp only [byteSwap]
    ext i hi
    simp
    interval_cases i <;> simp

theorem tlsHeader_eq {size : Nat} (h : size < 2 ^ 32) : tlsHeader size = header size := by
  have hbyte : ∀ {x : UInt8} {n : Nat}, x.toNat = n % 2 ^ 8 → x = .ofNat (n % 2 ^ 8) := by
    intro x n hx
    rw [← hx, UInt8.ofNat_toNat]
  have hsize : (UInt32.ofNat size).toNat = size := by
    rw [UInt32.toNat_ofNat']
    exact Nat.mod_eq_of_lt h
  rw [tlsHeader, memoryBytes_byteSwap]
  simp only [header, List.cons.injEq, and_true]
  refine ⟨hbyte ?_, hbyte ?_, hbyte ?_, hbyte ?_⟩
  all_goals simp [hsize, Nat.shiftRight_eq_div_pow]

theorem tlsHeaderLength_eq {hdr : List UInt8} (h : hdr.length = 4) :
    tlsHeaderLength hdr = headerLength hdr := by
  have hlt := headerLength_lt hdr
  have hhdr : hdr = memoryBytes (byteSwap (.ofNat (headerLength hdr))) := by
    rw [← tlsHeader, tlsHeader_eq hlt, header_headerLength h]
  have hword : memoryWord hdr = byteSwap (.ofNat (headerLength hdr)) := by
    nth_rewrite 1 [hhdr]
    exact memoryWord_memoryBytes _
  rw [tlsHeaderLength, hword, byteSwap_byteSwap, UInt32.toNat_ofNat']
  exact Nat.mod_eq_of_lt hlt

end InferenceRouter.Connection
