import InferenceRouter.Connection.Message

/-!
# What has been said on a connection

A connection to a backend is a pair of byte streams.  The backend answers the
complete request frames in order, one frame `R q` for each request `q`, any part
of it at any time, and sends nothing else.

`Settled` says that every request was answered and every answer read.  `Talks`
says that after some settled conversations one more is under way: `k` bytes of the
request `q` have been sent, and `m` bytes of its answer have been read.  Sending
moves `k`, reading moves `m`, and the backend can only extend the answer to `q`.
A conversation that was read to its end leaves the connection settled.
-/

namespace InferenceRouter.Relay

open Connection

/-- The function that the backends compute.  An answer fits into a frame. -/
structure Service where
  answer : List UInt8 → List UInt8
  fits : ∀ q, (answer q).length < 2 ^ 32

/-- The answers to some requests, as bytes. -/
def Service.answers (R : Service) (qs : List (List UInt8)) : List UInt8 :=
  qs.flatMap (fun q => frame (R.answer q))

/-- A connection to a backend: the bytes sent to it, the bytes that it sent, and
how many of these were read. -/
structure Stream where
  sent : List UInt8 := []
  answered : List UInt8 := []
  consumed : Nat := 0

def Stream.send (c : Stream) (bytes : List UInt8) : Stream := { c with sent := c.sent ++ bytes }

/-- The bytes that a `recv` can return. -/
def Stream.unread (c : Stream) : List UInt8 := c.answered.drop c.consumed

def Stream.recv (c : Stream) (n : Nat) : Stream := { c with consumed := c.consumed + n }

/-- The backend sends `bytes`, if these continue the answers to the requests that
have arrived whole. -/
def Stream.answer (R : Service) (c : Stream) (bytes : List UInt8) : Option Stream :=
  if c.answered ++ bytes <+: R.answers (completeFrames c.sent) then
    some { c with answered := c.answered ++ bytes }
  else none

/-- No request is unanswered, and no answer byte is unread. -/
def Stream.Settled (R : Service) (c : Stream) : Prop :=
  ∃ qs : List (List UInt8), (∀ q ∈ qs, q.length < 2 ^ 32) ∧ c.sent = qs.flatMap frame ∧
    c.answered = R.answers qs ∧ c.consumed = c.answered.length

/-- After some settled conversations, `k` bytes of the request `q` are sent and
`m` bytes of its answer are read. -/
def Stream.Talks (R : Service) (q : List UInt8) (k m : Nat) (c : Stream) : Prop :=
  ∃ (qs : List (List UInt8)) (ans : List UInt8), (∀ q ∈ qs, q.length < 2 ^ 32) ∧
    c.sent = qs.flatMap frame ++ (frame q).take k ∧ c.answered = R.answers qs ++ ans ∧
    c.consumed = (R.answers qs).length + m ∧ m ≤ ans.length ∧ ans <+: frame (R.answer q) ∧
    (k < (frame q).length → ans = [])

variable {R : Service} {c c' : Stream} {q : List UInt8} {k m : Nat} {r : Reading}

theorem Service.answers_append (qs qs' : List (List UInt8)) :
    R.answers (qs ++ qs') = R.answers qs ++ R.answers qs' := by
  simp [Service.answers]

theorem Stream.settled_new : Stream.Settled R {} := ⟨[], by simp, rfl, rfl, rfl⟩

/-- A settled connection is one on which any next conversation has not begun. -/
theorem Stream.settled_iff_talks (q : List UInt8) : c.Settled R ↔ c.Talks R q 0 0 := by
  constructor
  · rintro ⟨qs, hqs, hsent, hanswered, hconsumed⟩
    refine ⟨qs, [], hqs, ?_, ?_, ?_, Nat.le_refl _, List.nil_prefix, fun _ => rfl⟩
    · rw [hsent, List.take_zero, List.append_nil]
    · rw [hanswered, List.append_nil]
    · rw [hconsumed, hanswered, Nat.add_zero]
  · rintro ⟨qs, ans, hqs, hsent, hanswered, hconsumed, -, -, hans⟩
    have hnil : ans = [] := hans (by rw [length_frame]; omega)
    subst hnil
    rw [List.take_zero, List.append_nil] at hsent
    rw [List.append_nil] at hanswered
    exact ⟨qs, hqs, hsent, hanswered, by rw [hconsumed, hanswered, Nat.add_zero]⟩

/-- A part of the request is sent. -/
theorem Stream.Talks.send (h : c.Talks R q k m) {bytes : List UInt8} {k' : Nat} (hk : k ≤ k')
    (hbytes : (frame q).take k ++ bytes = (frame q).take k') : (c.send bytes).Talks R q k' m := by
  obtain ⟨qs, ans, hqs, hsent, hanswered, hconsumed, hm, hprefix, hans⟩ := h
  refine ⟨qs, ans, hqs, ?_, hanswered, hconsumed, hm, hprefix, fun hlt => hans (by omega)⟩
  show c.sent ++ bytes = _
  rw [hsent, List.append_assoc, hbytes]

/-- A `send` of `write_message` puts out the next part of the request. -/
theorem Stream.Talks.write {w : Writing} {n : Nat} (h : c.Talks R q w.pos m) (hw : w.Valid q)
    (hn : n ≤ w.need q) : (c.send (w.chunk q n)).Talks R q (w.pos + n) m :=
  h.send (Nat.le_add_right _ _) (hw.take_append hn)

/-- A part of the answer is read. -/
theorem Stream.Talks.recv (h : c.Talks R q k m) {bytes : List UInt8} (hbytes : bytes <+: c.unread) :
    (c.recv bytes.length).Talks R q k (m + bytes.length) ∧
      (frame (R.answer q)).take m ++ bytes = (frame (R.answer q)).take (m + bytes.length) := by
  obtain ⟨qs, ans, hqs, hsent, hanswered, hconsumed, hm, hprefix, hans⟩ := h
  have hunread : c.unread = ans.drop m := by
    rw [Stream.unread, hanswered, hconsumed, List.drop_length_add_append]
  rw [hunread] at hbytes
  have hlen := hbytes.length_le
  rw [List.length_drop] at hlen
  constructor
  · refine ⟨qs, ans, hqs, hsent, hanswered, ?_, by omega, hprefix, hans⟩
    show c.consumed + bytes.length = _
    rw [hconsumed, Nat.add_assoc]
  · obtain ⟨rest, hrest⟩ := hprefix
    have hdrop : bytes <+: (frame (R.answer q)).drop m := by
      rw [← hrest, List.drop_append_of_le_length hm]
      exact hbytes.trans (List.prefix_append _ _)
    rw [List.take_add, ← List.prefix_iff_eq_take.mp hdrop]

/-- The answers that a backend may have given while a conversation is under way:
those before it, and the one to its request once that has arrived whole. -/
theorem Stream.Talks.answer (h : c.Talks R q k m) (hq : q.length < 2 ^ 32) {bytes : List UInt8}
    (hc : c.answer R bytes = some c') : c'.Talks R q k m := by
  obtain ⟨qs, ans, hqs, hsent, hanswered, hconsumed, hm, hprefix, hans⟩ := h
  simp only [Stream.answer] at hc
  split at hc
  next hallowed =>
    cases hc
    rw [hsent, hanswered, List.append_assoc] at hallowed
    have hkept : c.answered ++ bytes = R.answers qs ++ (ans ++ bytes) := by
      rw [hanswered, List.append_assoc]
    have hm' : m ≤ (ans ++ bytes).length := by
      rw [List.length_append]
      omega
    by_cases hk : k < (frame q).length
    · -- The request is not whole, so there is nothing left to answer.
      have hlen : ((frame q).take k).length < (frame q).length := by
        rw [List.length_take]
        omega
      rw [completeFrames_part hqs hq (List.take_prefix _ _) hlen] at hallowed
      have hnil : ans ++ bytes = [] := by
        have hle := hallowed.length_le
        rw [List.length_append] at hle
        exact List.length_eq_zero_iff.mp (by omega)
      refine ⟨qs, ans ++ bytes, hqs, hsent, hkept, hconsumed, hm', ?_, fun _ => hnil⟩
      rw [hnil]
      exact List.nil_prefix
    · have hwhole : qs.flatMap frame ++ (frame q).take k = (qs ++ [q]).flatMap frame := by
        rw [List.take_of_length_le (by omega)]
        simp
      have hqs' : ∀ p ∈ qs ++ [q], p.length < 2 ^ 32 := by
        intro p hp
        rcases List.mem_append.mp hp with hp | hp
        · exact hqs p hp
        · rw [List.mem_singleton.mp hp]
          exact hq
      rw [hwhole, completeFrames_frames hqs', Service.answers_append] at hallowed
      have hpart : ans ++ bytes <+: frame (R.answer q) := by
        have hcancel := (List.prefix_append_right_inj _).mp hallowed
        simpa [Service.answers] using hcancel
      exact ⟨qs, ans ++ bytes, hqs, hsent, hkept, hconsumed, hm', hpart, fun hlt => absurd hlt hk⟩
  next => cases hc

theorem Stream.Settled.answer (h : c.Settled R) {bytes : List UInt8}
    (hc : c.answer R bytes = some c') : c'.Settled R := by
  rw [Stream.settled_iff_talks []] at h ⊢
  exact h.answer (by simp) hc

/-- A conversation that was read to its end is settled. -/
theorem Stream.Talks.settled (h : c.Talks R q k m) (hq : q.length < 2 ^ 32)
    (hk : (frame q).length ≤ k) (hm : (frame (R.answer q)).length ≤ m) : c.Settled R := by
  obtain ⟨qs, ans, hqs, hsent, hanswered, hconsumed, hle, hprefix, -⟩ := h
  have hans : ans = frame (R.answer q) :=
    hprefix.eq_of_length (Nat.le_antisymm hprefix.length_le (Nat.le_trans hm hle))
  refine ⟨qs ++ [q], ?_, ?_, ?_, ?_⟩
  · intro p hp
    rcases List.mem_append.mp hp with hp | hp
    · exact hqs p hp
    · rw [List.mem_singleton.mp hp]
      exact hq
  · rw [hsent, List.take_of_length_le hk]
    simp
  · rw [hanswered, hans, Service.answers_append]
    simp [Service.answers]
  · rw [hconsumed, hanswered, List.length_append]
    rw [hans] at hle
    rw [hans]
    omega

/-! ## Whole messages -/

/-- The call of `read_message` has taken `m` bytes of the answer to `q`. -/
def Stream.Hears (R : Service) (q : List UInt8) (r : Reading) (c : Stream) : Prop :=
  ∃ m, r.Has ((frame (R.answer q)).take m) ∧ c.Talks R q (frame q).length m

theorem Stream.Talks.hears (h : c.Talks R q (frame q).length 0) : c.Hears R q .start :=
  ⟨0, by rw [List.take_zero]; exact Reading.has_start, h⟩

theorem Stream.Hears.recv_more (h : c.Hears R q r) {bytes : List UInt8} {maxPayload : Nat}
    {r' : Reading} (hneed : bytes.length ≤ r.need) (hbytes : bytes <+: c.unread)
    (hr : r.recv maxPayload bytes = .inl r') : (c.recv bytes.length).Hears R q r' := by
  obtain ⟨m, hhas, htalks⟩ := h
  obtain ⟨htalks', htake⟩ := htalks.recv hbytes
  refine ⟨m + bytes.length, ?_, htalks'⟩
  rw [← htake]
  exact Reading.recv_more hhas hneed hr

/-- A read that returns `kOk` returns the answer and leaves the connection
settled. -/
theorem Stream.Hears.recv_ok (h : c.Hears R q r) (hq : q.length < 2 ^ 32) {bytes out : List UInt8}
    {maxPayload : Nat} (hneed : bytes.length ≤ r.need) (hbytes : bytes <+: c.unread)
    (hr : r.recv maxPayload bytes = .inr (.kOk, out)) :
    out = R.answer q ∧ (c.recv bytes.length).Settled R := by
  obtain ⟨m, hhas, htalks⟩ := h
  obtain ⟨htalks', htake⟩ := htalks.recv hbytes
  obtain ⟨hframe, hout⟩ := Reading.recv_ok hhas hneed hr
  rw [htake] at hframe
  have heq : out = R.answer q :=
    eq_of_frame_prefix hout (R.fits q) (hframe ▸ List.take_prefix _ _)
  refine ⟨heq, htalks'.settled hq (Nat.le_refl _) ?_⟩
  have hlen := congrArg List.length hframe
  rw [List.length_take, heq] at hlen
  omega

theorem Stream.Hears.answer (h : c.Hears R q r) (hq : q.length < 2 ^ 32) {bytes : List UInt8}
    (hc : c.answer R bytes = some c') : c'.Hears R q r := by
  obtain ⟨m, hhas, htalks⟩ := h
  exact ⟨m, hhas, htalks.answer hq hc⟩

end InferenceRouter.Relay
