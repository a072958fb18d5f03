import InferenceRouter.Connection.Message

/-!
# The frame grammar

What `parse_frame` accepts.  A buffer is too short for a header, or it is the header of some
length below `2 ^ 32` and the bytes behind it, and then `parseFrame_header` says what the
decoder makes of it.  The sum `4 + len` is far from the end of a 64-bit `size_t`, so nothing
is lost by computing with natural numbers.

`parseLoop` decodes one frame after the other, each at the offset where the last one ended.
-/

namespace InferenceRouter.Connection

variable {maxPayload : Nat} {buf out : List UInt8}

/-! ## Headers -/

/-- A buffer of four bytes or more begins with the header of the length it declares. -/
theorem eq_header_append (h : 4 ≤ buf.length) :
    buf = header (headerLength buf) ++ buf.drop 4 := by
  have hlen : (buf.take 4).length = 4 := by
    rw [List.length_take]
    omega
  have hsame : headerLength buf = headerLength (buf.take 4) := by
    match buf, h with
    | _ :: _ :: _ :: _ :: _, _ => rfl
  rw [hsame, header_headerLength hlen, List.take_append_drop]

/-- Either there is no header, or there is one. -/
theorem header_cases (buf : List UInt8) :
    buf.length < 4 ∨ ∃ len rest, len < 2 ^ 32 ∧ buf = header len ++ rest := by
  rcases Nat.lt_or_ge buf.length 4 with hshort | hfour
  · exact .inl hshort
  · exact .inr ⟨_, _, headerLength_lt buf, eq_header_append hfour⟩

theorem parseFrame_short (h : buf.length < 4) :
    parseFrame (some buf) maxPayload out = (.kPeerClosed, out, 0) := by
  simp only [parseFrame, if_pos h]

/-- The length decides, and then the number of bytes behind the header. -/
theorem parseFrame_header {len : Nat} (hlen : len < 2 ^ 32) (rest : List UInt8) :
    parseFrame (some (header len ++ rest)) maxPayload out =
      if maxPayload < len then (.kProtocolError, out, 0)
      else if rest.length < len then (.kPeerClosed, out, 0)
      else (.kOk, rest.take len, 4 + len) := by
  have hfour : ¬ (header len ++ rest).length < 4 := by
    rw [List.length_append, length_header]
    omega
  have hdrop : (header len ++ rest).drop 4 = rest := by
    rw [← length_header len, List.drop_left]
  have hrest : (header len ++ rest).length < 4 + len ↔ rest.length < len := by
    rw [List.length_append, length_header]
    omega
  simp only [parseFrame, if_neg hfour, headerLength_header hlen, hdrop, hrest]

/-- A header is read in one way only. -/
theorem header_append_inj {len len' : Nat} {rest rest' : List UInt8} (hlen : len < 2 ^ 32)
    (hlen' : len' < 2 ^ 32) (h : header len ++ rest = header len' ++ rest') :
    len = len' ∧ rest = rest' := by
  have hsame : len = len' := by
    rw [← headerLength_header hlen rest, h, headerLength_header hlen' rest']
  subst hsame
  exact ⟨rfl, List.append_cancel_left h⟩

/-! ## One frame -/

/-- What the status, the buffer `out'` and `consumed` say about the bytes. -/
structure FollowsGrammar (maxPayload : Nat) (buf out : List UInt8) (status : IoStatus)
    (out' : List UInt8) (consumed : Nat) : Prop where
  ok_iff : status = .kOk ↔ ∃ payload rest, buf = header payload.length ++ payload ++ rest ∧
    payload.length < 2 ^ 32 ∧ payload.length ≤ maxPayload
  decoded : status = .kOk → (∃ rest, buf = header out'.length ++ out' ++ rest) ∧
    out'.length < 2 ^ 32 ∧ out'.length ≤ maxPayload ∧ consumed = 4 + out'.length ∧
    consumed ≤ buf.length ∧ frame out' = buf.take consumed
  protocolError_iff : status = .kProtocolError ↔
    ∃ len rest, buf = header len ++ rest ∧ len < 2 ^ 32 ∧ maxPayload < len
  peerClosed : status ≠ .kOk → status ≠ .kProtocolError → status = .kPeerClosed
  unchanged : status ≠ .kOk → out' = out ∧ consumed = 0

theorem followsGrammar_short (h : buf.length < 4) :
    FollowsGrammar maxPayload buf out .kPeerClosed out 0 where
  ok_iff := by
    refine iff_of_false nofun ?_
    rintro ⟨payload, rest, rfl, -⟩
    simp only [List.length_append, length_header] at h
    omega
  decoded := nofun
  protocolError_iff := by
    refine iff_of_false nofun ?_
    rintro ⟨len, rest, rfl, -⟩
    simp only [List.length_append, length_header] at h
    omega
  peerClosed _ _ := rfl
  unchanged _ := ⟨rfl, rfl⟩

section Header

variable {len : Nat} {rest : List UInt8}

theorem followsGrammar_tooLong (hlen : len < 2 ^ 32) (hbig : maxPayload < len) :
    FollowsGrammar maxPayload (header len ++ rest) out .kProtocolError out 0 where
  ok_iff := by
    refine iff_of_false nofun ?_
    rintro ⟨payload, rest', heq, hsize, hmax⟩
    rw [List.append_assoc] at heq
    have hsame := (header_append_inj hlen hsize heq).1
    omega
  decoded := nofun
  protocolError_iff := iff_of_true rfl ⟨len, rest, rfl, hlen, hbig⟩
  peerClosed _ h := absurd rfl h
  unchanged _ := ⟨rfl, rfl⟩

theorem followsGrammar_cut (hlen : len < 2 ^ 32) (hmax : len ≤ maxPayload)
    (hcut : rest.length < len) :
    FollowsGrammar maxPayload (header len ++ rest) out .kPeerClosed out 0 where
  ok_iff := by
    refine iff_of_false nofun ?_
    rintro ⟨payload, rest', heq, hsize, -⟩
    rw [List.append_assoc] at heq
    obtain ⟨rfl, rfl⟩ := header_append_inj hlen hsize heq
    rw [List.length_append] at hcut
    omega
  decoded := nofun
  protocolError_iff := by
    refine iff_of_false nofun ?_
    rintro ⟨len', rest', heq, hsize, hbig⟩
    have hsame := (header_append_inj hlen hsize heq).1
    omega
  peerClosed _ _ := rfl
  unchanged _ := ⟨rfl, rfl⟩

theorem followsGrammar_ok (hlen : len < 2 ^ 32) (hmax : len ≤ maxPayload)
    (hwhole : len ≤ rest.length) :
    FollowsGrammar maxPayload (header len ++ rest) out .kOk (rest.take len) (4 + len) where
  ok_iff := by
    refine iff_of_true rfl ⟨rest.take len, rest.drop len, ?_, ?_, ?_⟩
    · rw [List.length_take_of_le hwhole, List.append_assoc, List.take_append_drop]
    · rwa [List.length_take_of_le hwhole]
    · rwa [List.length_take_of_le hwhole]
  decoded _ := by
    have hsize := List.length_take_of_le hwhole
    refine ⟨⟨rest.drop len, ?_⟩, ?_, ?_, ?_, ?_, ?_⟩
    · rw [hsize, List.append_assoc, List.take_append_drop]
    · rwa [hsize]
    · rwa [hsize]
    · rw [hsize]
    · rw [List.length_append, length_header]
      omega
    · rw [frame, hsize, ← length_header len, List.take_length_add_append]
  protocolError_iff := by
    refine iff_of_false (by decide) ?_
    rintro ⟨len', rest', heq, hsize, hbig⟩
    have hsame := (header_append_inj hlen hsize heq).1
    omega
  peerClosed h _ := absurd rfl h
  unchanged h := absurd rfl h

end Header

theorem parseFrame_follows (maxPayload : Nat) (buf out : List UInt8) :
    FollowsGrammar maxPayload buf out (parseFrame (some buf) maxPayload out).1
      (parseFrame (some buf) maxPayload out).2.1 (parseFrame (some buf) maxPayload out).2.2 := by
  rcases header_cases buf with hshort | ⟨len, rest, hlen, rfl⟩
  · rw [parseFrame_short hshort]
    exact followsGrammar_short hshort
  · rw [parseFrame_header hlen]
    split
    next hbig => exact followsGrammar_tooLong hlen hbig
    next hmax =>
      split
      next hcut => exact followsGrammar_cut hlen (Nat.not_lt.mp hmax) hcut
      next hwhole => exact followsGrammar_ok hlen (Nat.not_lt.mp hmax) (Nat.not_lt.mp hwhole)

/-- Only a buffer that ends too early can be decided by more bytes. -/
theorem parseFrame_append (more : List UInt8)
    (h : (parseFrame (some buf) maxPayload out).1 ≠ .kPeerClosed) :
    parseFrame (some (buf ++ more)) maxPayload out = parseFrame (some buf) maxPayload out := by
  rcases header_cases buf with hshort | ⟨len, rest, hlen, rfl⟩
  · rw [parseFrame_short hshort] at h
    exact absurd rfl h
  · rw [List.append_assoc, parseFrame_header hlen, parseFrame_header hlen]
    rw [parseFrame_header hlen] at h
    split
    next => rfl
    next hmax =>
      rw [if_neg hmax] at h
      split at h
      next => exact absurd rfl h
      next hwhole =>
        have hmore : ¬ (rest ++ more).length < len := by
          rw [List.length_append]
          omega
        rw [if_neg hmore, if_neg hwhole, List.take_append_of_le_length (Nat.not_lt.mp hwhole)]

/-! ## One frame after the other -/

/-- The payloads from `offset` on, the offset at which the decoder stops and the status with
which it does; `none` while the fuel does not suffice. -/
def parseLoop (maxPayload : Nat) (buf : List UInt8) :
    Nat → Nat → Option (List (List UInt8) × Nat × IoStatus)
  | 0, _ => none
  | fuel + 1, offset =>
      match parseFrame (some (buf.drop offset)) maxPayload [] with
      | (.kOk, payload, consumed) =>
          (parseLoop maxPayload buf fuel (offset + consumed)).map (fun result =>
            (payload :: result.1, result.2))
      | (status, _, _) => some ([], offset, status)

/-- The loop behind a part of the buffer that it has passed. -/
theorem parseLoop_frames {payloads : List (List UInt8)}
    (h : ∀ p ∈ payloads, p.length < 2 ^ 32 ∧ p.length ≤ maxPayload) (passed : List UInt8)
    {fuel : Nat} (hfuel : payloads.length < fuel) :
    parseLoop maxPayload (passed ++ payloads.flatMap frame) fuel passed.length =
      some (payloads, (passed ++ payloads.flatMap frame).length, .kPeerClosed) := by
  induction payloads generalizing passed fuel with
  | nil =>
      cases fuel with
      | zero => exact absurd hfuel (Nat.lt_irrefl 0)
      | succ fuel =>
          rw [parseLoop, List.drop_left, List.flatMap_nil, parseFrame_short (by simp),
            List.append_nil]
  | cons p payloads ih =>
      cases fuel with
      | zero => exact absurd hfuel (Nat.not_lt_zero _)
      | succ fuel =>
          obtain ⟨hsize, hmax⟩ := h p List.mem_cons_self
          have hrest := ih (fun q hq => h q (List.mem_cons_of_mem _ hq)) (passed ++ frame p)
            (Nat.lt_of_succ_lt_succ hfuel)
          rw [List.append_assoc, List.length_append, length_frame] at hrest
          rw [parseLoop, List.drop_left, List.flatMap_cons, parseFrame_frame hsize _ _ hmax]
          simp only [hrest, Option.map_some]

/-- `parse_frame` accepts exactly the frame grammar: its result follows the grammar, `kOk`
and `kProtocolError` survive whatever is appended, and the encodings of any payloads are
decoded one after the other to the end. -/
theorem parse_frame_grammar (maxPayload : Nat) (buf out : List UInt8) :
    FollowsGrammar maxPayload buf out (parseFrame (some buf) maxPayload out).1
      (parseFrame (some buf) maxPayload out).2.1 (parseFrame (some buf) maxPayload out).2.2 ∧
    (∀ more, (parseFrame (some buf) maxPayload out).1 = .kOk ∨
      (parseFrame (some buf) maxPayload out).1 = .kProtocolError →
      parseFrame (some (buf ++ more)) maxPayload out = parseFrame (some buf) maxPayload out) ∧
    ∀ payloads : List (List UInt8),
      (∀ p ∈ payloads, p.length ≤ min maxPayload (2 ^ 32 - 1)) → ∀ fuel, payloads.length < fuel →
      parseLoop maxPayload (payloads.flatMap frame) fuel 0 =
        some (payloads, (payloads.flatMap frame).length, .kPeerClosed) := by
  refine ⟨parseFrame_follows maxPayload buf out, ?_, ?_⟩
  · intro more h
    apply parseFrame_append more
    rcases h with h | h <;> rw [h] <;> decide
  · intro payloads hsmall fuel hfuel
    have hbounds : ∀ p ∈ payloads, p.length < 2 ^ 32 ∧ p.length ≤ maxPayload := by
      intro p hp
      have hle := hsmall p hp
      omega
    have hloop := parseLoop_frames hbounds [] hfuel
    rwa [List.nil_append, List.length_nil] at hloop

example : parseLoop 3 [0, 0, 0, 2, 7, 8, 0, 0, 0, 0, 0, 0, 0, 4] 4 0 =
    some ([[7, 8], []], 10, .kProtocolError) := by decide

/-! ## The frames of a stream -/

/-- After whole frames the rest is looked at. -/
theorem completeFrames_append {payloads : List (List UInt8)}
    (h : ∀ p ∈ payloads, p.length < 2 ^ 32) (rest : List UInt8) :
    ∃ fuel, completeFrames (payloads.flatMap frame ++ rest) = payloads ++ framesIn fuel rest := by
  have hle := length_le_flatMap_frame payloads
  obtain ⟨fuel, hfuel⟩ : ∃ fuel, (payloads.flatMap frame ++ rest).length =
      payloads.length + fuel := by
    refine ⟨(payloads.flatMap frame).length - payloads.length + rest.length, ?_⟩
    rw [List.length_append]
    omega
  exact ⟨fuel, by rw [completeFrames, hfuel, framesIn_frames payloads h]⟩

/-- What a call of `read_message` has taken has no whole frame in it. -/
theorem framesIn_has {r : Reading} {bytes : List UInt8} (h : r.Has bytes) :
    ∀ fuel, framesIn fuel bytes = []
  | 0 => rfl
  | fuel + 1 => by
      cases r with
      | header got =>
          obtain ⟨rfl, hgot⟩ := h
          rw [framesIn, parseFrame_short hgot]
      | payload len got =>
          obtain ⟨rfl, hlen, hgot⟩ := h
          rw [framesIn, parseFrame_header hlen, if_neg (Nat.not_lt.mpr (Nat.le_of_lt hlen)),
            if_pos hgot]

/-- The first frame behind a header is as long as the header says. -/
theorem framesIn_header {len : Nat} (hlen : len < 2 ^ 32) (rest : List UInt8) (fuel : Nat) :
    framesIn fuel (header len ++ rest) = [] ∨
      ∃ payload more, payload.length = len ∧
        framesIn fuel (header len ++ rest) = payload :: more := by
  cases fuel with
  | zero => exact .inl rfl
  | succ fuel =>
      rw [framesIn, parseFrame_header hlen, if_neg (Nat.not_lt.mpr (Nat.le_of_lt hlen))]
      by_cases hshort : rest.length < len
      · rw [if_pos hshort]
        exact .inl rfl
      · rw [if_neg hshort]
        refine .inr ⟨rest.take len, _, ?_, rfl⟩
        rw [List.length_take]
        omega

end InferenceRouter.Connection
