import Mathlib.Algebra.Group.Nat.Defs
import Mathlib.Data.List.Basic

/-!
# Frames

The wire format of `connection.h`: a length of four bytes, most significant
first, then the payload.  `header` is what `htonl` and `memcpy` leave in `hdr`,
and `headerLength` is what `memcpy` and `ntohl` read back; both are the same on
every host.  `parseFrame` is `parse_frame` of `connection.cpp`.
-/

namespace InferenceRouter.Connection

/-- `IoStatus`. -/
inductive IoStatus where
  | kOk
  | kPeerClosed
  | kTimeout
  | kProtocolError
  | kIoError
  deriving DecidableEq, Repr

/-- The four bytes of a length in network byte order. -/
def header (size : Nat) : List UInt8 :=
  [.ofNat (size / 2 ^ 24 % 2 ^ 8), .ofNat (size / 2 ^ 16 % 2 ^ 8),
    .ofNat (size / 2 ^ 8 % 2 ^ 8), .ofNat (size % 2 ^ 8)]

/-- The length that the first four bytes declare. -/
def headerLength : List UInt8 → Nat
  | a :: b :: c :: d :: _ => a.toNat * 2 ^ 24 + b.toNat * 2 ^ 16 + c.toNat * 2 ^ 8 + d.toNat
  | _ => 0

/-- The bytes of one message. -/
def frame (payload : List UInt8) : List UInt8 := header payload.length ++ payload

/-- `parse_frame`: the status, what `out` holds and what `consumed` holds after
the call.  `none` is the null buffer. -/
def parseFrame (buf : Option (List UInt8)) (maxPayload : Nat) (out : List UInt8) :
    IoStatus × List UInt8 × Nat :=
  match buf with
  | none => (.kIoError, out, 0)
  | some bytes =>
      if bytes.length < 4 then (.kPeerClosed, out, 0)
      else if maxPayload < headerLength bytes then (.kProtocolError, out, 0)
      else if bytes.length < 4 + headerLength bytes then (.kPeerClosed, out, 0)
      else (.kOk, (bytes.drop 4).take (headerLength bytes), 4 + headerLength bytes)

/-! ## Headers -/

@[simp] theorem length_header (size : Nat) : (header size).length = 4 := rfl

@[simp] theorem length_frame (payload : List UInt8) :
    (frame payload).length = 4 + payload.length := by
  simp [frame]

/-- A length below `2 ^ 32` is read back from its header, whatever follows. -/
theorem headerLength_header {size : Nat} (h : size < 2 ^ 32) (rest : List UInt8) :
    headerLength (header size ++ rest) = size := by
  simp only [header, List.cons_append, headerLength, UInt8.toNat_ofNat']
  omega

theorem headerLength_frame {payload : List UInt8} (h : payload.length < 2 ^ 32)
    (rest : List UInt8) : headerLength (frame payload ++ rest) = payload.length := by
  rw [frame, List.append_assoc]
  exact headerLength_header h _

theorem le_length_frame_append (payload rest : List UInt8) :
    4 + payload.length ≤ (frame payload ++ rest).length := by
  rw [List.length_append, length_frame]
  exact Nat.le_add_right _ _

/-- What follows the header. -/
theorem drop_frame_append (payload rest : List UInt8) :
    (frame payload ++ rest).drop 4 = payload ++ rest := by
  rw [frame, List.append_assoc, ← length_header payload.length, List.drop_left]

end InferenceRouter.Connection
