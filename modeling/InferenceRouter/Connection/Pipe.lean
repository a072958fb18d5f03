import InferenceRouter.Connection.Decoder

/-!
# Messages over a pipe

One thread writes payloads with successive calls of `write_message`, and another one
reads them back with successive calls of `read_message`.  Between them is a descriptor
that carries bytes in order and loses none.  Every turn of either loop is a step, so the
bytes may be cut anywhere on both sides, and both loops may be interrupted.

The writer stops after a call that failed, and the reader after a call that returned no
message.  `Sound` holds after every run, whatever the turns come to.  `Complete` is what
is known of the runs without a timeout or an error: nothing is lost, and the reader gets
on until it meets the end of the stream.
-/

namespace InferenceRouter.Connection

open Interleaving

/-! ## The machine -/

structure PipeOptions where
  maxPayload : Nat
  readTimeoutMs : Int := -1
  writeTimeoutMs : Int := -1

/-- A call that has returned `kOk`: its payload, and the bytes it has moved. -/
structure Transfer where
  payload : List UInt8
  bytes : List UInt8

structure Pipe where
  /-- The payloads that no call has been made for. -/
  todo : List (List UInt8)
  /-- The writer's call. -/
  writing : Option (List UInt8 × Writing) := none
  /-- The bytes that this call, or the one that failed, has handed over. -/
  handed : List UInt8 := []
  written : List Transfer := []
  failed : Option (List UInt8 × IoStatus) := none
  closed : Bool := false
  /-- Handed over and not received. -/
  bytes : List UInt8 := []
  /-- The reader's call. -/
  reading : Option Reading := none
  /-- The bytes that this call, or the one that ended the reader, has received. -/
  taken : List UInt8 := []
  reads : List Transfer := []
  ended : Option (IoStatus × List UInt8) := none

inductive PipeEvent where
  /-- The next call of `write_message`. -/
  | write
  | send (t : WriteTurn)
  /-- The writer closes its end. -/
  | close
  /-- The next call of `read_message`. -/
  | read
  | recv (t : ReadTurn)

/-- A call of `write_message` returns. -/
def Pipe.wrote (s : Pipe) (data handed : List UInt8) (status : IoStatus) : Pipe :=
  if status = .kOk then
    { s with writing := none, handed := [], written := s.written ++ [⟨data, handed⟩] }
  else { s with writing := none, handed := handed, failed := some (data, status) }

/-- A call of `read_message` returns. -/
def Pipe.gotMessage (s : Pipe) (taken : List UInt8) (status : IoStatus) (out : List UInt8) :
    Pipe :=
  if status = .kOk then { s with reading := none, taken := [], reads := s.reads ++ [⟨out, taken⟩] }
  else { s with reading := none, taken := taken, ended := some (status, out) }

def Pipe.write (s : Pipe) : Option Pipe :=
  match s.todo, s.writing, s.failed with
  | data :: todo, none, none =>
      match Writing.start data with
      | .inl w => some { s with todo := todo, writing := some (data, w) }
      | .inr status => some (Pipe.wrote { s with todo := todo } data [] status)
  | _, _, _ => none

def Pipe.send (o : PipeOptions) (s : Pipe) (t : WriteTurn) : Option Pipe :=
  match s.writing, t.outcome o.writeTimeoutMs with
  | some (data, w), some out =>
      let chunk := w.handed data out
      let s' := { s with bytes := s.bytes ++ chunk }
      match w.turn data out with
      | some (.inl w') =>
          some { s' with writing := some (data, w'), handed := s.handed ++ chunk }
      | some (.inr status) => some (s'.wrote data (s.handed ++ chunk) status)
      | none => none
  | _, _ => none

def Pipe.recv (o : PipeOptions) (s : Pipe) (t : ReadTurn) : Option Pipe :=
  match s.reading, t.outcome o.readTimeoutMs with
  | some r, some out =>
      if out.fits s.bytes s.closed = true then
        let s' := { s with bytes := out.rest s.bytes }
        match r.turn o.maxPayload out with
        | some (.inl r') => some { s' with reading := some r', taken := s.taken ++ out.chunk }
        | some (.inr (status, buf)) => some (s'.gotMessage (s.taken ++ out.chunk) status buf)
        | none => none
      else none
  | _, _ => none

def Pipe.step (o : PipeOptions) (s : Pipe) : PipeEvent → Option Pipe
  | .write => s.write
  | .send t => s.send o t
  | .close =>
      if s.closed = false ∧ s.writing.isNone = true ∧ (s.todo = [] ∨ s.failed.isSome = true) then
        some { s with closed := true }
      else none
  | .read =>
      if s.reading.isNone = true ∧ s.ended.isNone = true then
        some { s with reading := some .start }
      else none
  | .recv t => s.recv o t

def pipe (o : PipeOptions) (payloads : List (List UInt8)) : Machine Pipe PipeEvent where
  init := { todo := payloads }
  step := Pipe.step o

/-- Every way in which an event changes the pipe. -/
inductive PipeStep (o : PipeOptions) (s : Pipe) : PipeEvent → Pipe → Prop where
  | write {data : List UInt8} {todo : List (List UInt8)} {w : Writing} :
      s.todo = data :: todo → s.writing = none → s.failed = none →
      Writing.start data = .inl w →
      PipeStep o s .write { s with todo := todo, writing := some (data, w) }
  | refused {data : List UInt8} {todo : List (List UInt8)} {status : IoStatus} :
      s.todo = data :: todo → s.writing = none → s.failed = none →
      Writing.start data = .inr status →
      PipeStep o s .write (Pipe.wrote { s with todo := todo } data [] status)
  | sent {t : WriteTurn} {data : List UInt8} {w w' : Writing} {out : Outcome Nat} :
      s.writing = some (data, w) → t.outcome o.writeTimeoutMs = some out →
      w.turn data out = some (.inl w') →
      PipeStep o s (.send t) { s with
        bytes := s.bytes ++ w.handed data out
        writing := some (data, w')
        handed := s.handed ++ w.handed data out }
  | wrote {t : WriteTurn} {data : List UInt8} {w : Writing} {out : Outcome Nat}
      {status : IoStatus} :
      s.writing = some (data, w) → t.outcome o.writeTimeoutMs = some out →
      w.turn data out = some (.inr status) →
      PipeStep o s (.send t) (Pipe.wrote { s with bytes := s.bytes ++ w.handed data out } data
        (s.handed ++ w.handed data out) status)
  | close : s.closed = false → s.writing = none → (s.todo = [] ∨ s.failed.isSome = true) →
      PipeStep o s .close { s with closed := true }
  | read : s.reading = none → s.ended = none →
      PipeStep o s .read { s with reading := some .start }
  | received {t : ReadTurn} {r r' : Reading} {out : Outcome (List UInt8)} :
      s.reading = some r → t.outcome o.readTimeoutMs = some out →
      out.fits s.bytes s.closed = true → r.turn o.maxPayload out = some (.inl r') →
      PipeStep o s (.recv t) { s with
        bytes := out.rest s.bytes
        reading := some r'
        taken := s.taken ++ out.chunk }
  | got {t : ReadTurn} {r : Reading} {out : Outcome (List UInt8)} {status : IoStatus}
      {buf : List UInt8} :
      s.reading = some r → t.outcome o.readTimeoutMs = some out →
      out.fits s.bytes s.closed = true → r.turn o.maxPayload out = some (.inr (status, buf)) →
      PipeStep o s (.recv t) (Pipe.gotMessage { s with bytes := out.rest s.bytes }
        (s.taken ++ out.chunk) status buf)

theorem Pipe.step_cases {o : PipeOptions} {s s' : Pipe} {e : PipeEvent}
    (h : s.step o e = some s') : PipeStep o s e s' := by
  cases e with
  | write =>
      simp only [Pipe.step, Pipe.write] at h
      split at h
      next data todo htodo hwriting hfailed =>
        split at h
        next w hstart =>
          cases h
          exact .write htodo hwriting hfailed hstart
        next status hstart =>
          cases h
          exact .refused htodo hwriting hfailed hstart
      next => cases h
  | send t =>
      simp only [Pipe.step, Pipe.send] at h
      split at h
      next data w out hwriting hout =>
        split at h
        next w' hturn =>
          cases h
          exact .sent hwriting hout hturn
        next status hturn =>
          cases h
          exact .wrote hwriting hout hturn
        next => cases h
      next => cases h
  | close =>
      simp only [Pipe.step] at h
      split at h
      next hguard =>
        cases h
        exact .close hguard.1 (Option.isNone_iff_eq_none.mp hguard.2.1) hguard.2.2
      next => cases h
  | read =>
      simp only [Pipe.step] at h
      split at h
      next hguard =>
        cases h
        exact .read (Option.isNone_iff_eq_none.mp hguard.1)
          (Option.isNone_iff_eq_none.mp hguard.2)
      next => cases h
  | recv t =>
      simp only [Pipe.step, Pipe.recv] at h
      split at h
      next r out hreading hout =>
        split at h
        next hfits =>
          split at h
          next r' hturn =>
            cases h
            exact .received hreading hout hfits hturn
          next status buf hturn =>
            cases h
            exact .got hreading hout hfits hturn
          next => cases h
        next => cases h
      next => cases h

/-! ## Frames, one after the other -/

/-- Whole frames at the start of whole frames and a part of one are the first of
them. -/
theorem frames_initial {outs payloads : List (List UInt8)} {part payload : List UInt8}
    (houts : ∀ p ∈ outs, p.length < 2 ^ 32) (hpayloads : ∀ p ∈ payloads, p.length < 2 ^ 32)
    (hpayload : payload.length < 2 ^ 32) (hpart : part <+: frame payload)
    (hshort : part.length < (frame payload).length)
    (h : outs.flatMap frame <+: payloads.flatMap frame ++ part) : outs <+: payloads := by
  induction outs generalizing payloads with
  | nil => exact List.nil_prefix
  | cons out outs ih =>
      have hout := houts out List.mem_cons_self
      rw [List.flatMap_cons] at h
      cases payloads with
      | nil =>
          -- a whole frame does not fit into a part of one
          have hin : frame out <+: part := (List.prefix_append _ _).trans h
          have heq := eq_of_frame_prefix hout hpayload (hin.trans hpart)
          rw [heq] at hin
          have hle := hin.length_le
          omega
      | cons p payloads =>
          have hp := hpayloads p List.mem_cons_self
          rw [List.flatMap_cons, List.append_assoc] at h
          have heq : out = p := by
            rcases List.prefix_or_prefix_of_prefix ((List.prefix_append _ _).trans h)
              (List.prefix_append (frame p) _) with hle | hle
            · exact eq_of_frame_prefix hout hp hle
            · exact Eq.symm <| eq_of_frame_prefix hp hout hle
          subst heq
          have htail := ih (fun q hq => houts q (List.mem_cons_of_mem _ hq))
            (fun q hq => hpayloads q (List.mem_cons_of_mem _ hq))
            ((List.prefix_append_right_inj _).mp h)
          exact List.cons_prefix_cons.mpr ⟨rfl, htail⟩

/-! ## Every run -/

/-- What is known of the writer's and the reader's calls. -/
structure Pipe.Sound (o : PipeOptions) (payloads : List (List UInt8)) (s : Pipe) : Prop where
  /-- The calls are made for the payloads in order. -/
  order : s.written.map Transfer.payload ++
    ((s.writing.map Prod.fst).toList ++ (s.failed.map Prod.fst).toList) ++ s.todo = payloads
  whole : ∀ x ∈ s.written, x.bytes = frame x.payload ∧ x.payload.length < 2 ^ 32
  writing : ∀ data w, s.writing = some (data, w) → s.failed = none ∧ w.Valid data ∧
    data.length < 2 ^ 32 ∧ s.handed = (frame data).take w.pos
  failed : ∀ data status, s.failed = some (data, status) → status ≠ .kOk ∧
    s.handed <+: frame data ∧ s.handed.length < (frame data).length ∧
      (data.length < 2 ^ 32 ∨ s.handed = [])
  idle : s.writing = none → s.failed = none → s.handed = []
  closed : s.closed = true → s.writing = none ∧ (s.todo = [] ∨ s.failed.isSome = true)
  stream : s.written.flatMap Transfer.bytes ++ s.handed =
    s.reads.flatMap Transfer.bytes ++ s.taken ++ s.bytes
  reading : ∀ r, s.reading = some r → s.ended = none ∧ r.Has s.taken ∧ r.Accepted o.maxPayload
  resting : s.reading = none → s.ended = none → s.taken = []
  got : ∀ x ∈ s.reads, x.bytes = frame x.payload ∧ x.payload.length < 2 ^ 32

theorem flatMap_bytes {l : List Transfer} (h : ∀ x ∈ l, x.bytes = frame x.payload) :
    l.flatMap Transfer.bytes = (l.map Transfer.payload).flatMap frame := by
  induction l with
  | nil => rfl
  | cons x l ih =>
      rw [List.flatMap_cons, List.map_cons, List.flatMap_cons, h x List.mem_cons_self,
        ih (fun y hy => h y (List.mem_cons_of_mem _ hy))]

section Sound

variable {o : PipeOptions} {payloads : List (List UInt8)} {s s' : Pipe} {e : PipeEvent}

/-- What the current call of the writer has handed over is a part of a frame. -/
theorem Pipe.Sound.part (h : s.Sound o payloads) : ∃ payload : List UInt8,
    payload.length < 2 ^ 32 ∧ s.handed <+: frame payload ∧
      s.handed.length < (frame payload).length := by
  cases hw : s.writing with
  | some call =>
      obtain ⟨data, w⟩ := call
      obtain ⟨-, hvalid, hlen, hhanded⟩ := h.writing data w hw
      refine ⟨data, hlen, ?_, ?_⟩
      · rw [hhanded]
        exact List.take_prefix _ _
      · rw [hhanded, List.length_take]
        have hpos := hvalid.pos_lt
        omega
  | none =>
      have hnone : s.handed = [] → ∃ payload : List UInt8, payload.length < 2 ^ 32 ∧
          s.handed <+: frame payload ∧ s.handed.length < (frame payload).length := by
        intro hempty
        rw [hempty]
        exact ⟨[], by simp, List.nil_prefix, by simp⟩
      cases hf : s.failed with
      | none => exact hnone (h.idle hw hf)
      | some call =>
          obtain ⟨data, status⟩ := call
          obtain ⟨-, hin, hshort, hlen | hempty⟩ := h.failed data status hf
          · exact ⟨data, hlen, hin, hshort⟩
          · exact hnone hempty

/-- The reader has the first of the payloads that were written whole. -/
theorem Pipe.Sound.reads_initial (h : s.Sound o payloads) :
    s.reads.map Transfer.payload <+: s.written.map Transfer.payload := by
  obtain ⟨payload, hlen, hin, hshort⟩ := h.part
  have hsmall : ∀ {l : List Transfer}, (∀ x ∈ l, x.bytes = frame x.payload ∧
      x.payload.length < 2 ^ 32) → ∀ p ∈ l.map Transfer.payload, p.length < 2 ^ 32 := by
    intro l hl p hp
    obtain ⟨x, hx, rfl⟩ := List.mem_map.mp hp
    exact (hl x hx).2
  apply frames_initial (hsmall h.got) (hsmall h.whole) hlen hin hshort
  rw [← flatMap_bytes (fun x hx => (h.got x hx).1), ← flatMap_bytes (fun x hx => (h.whole x hx).1),
    h.stream, List.append_assoc]
  exact List.prefix_append _ _

/-- The writer does not close in the middle of a call. -/
theorem Pipe.Sound.not_closed (h : s.Sound o payloads) {call : List UInt8 × Writing}
    (hwriting : s.writing = some call) : ¬ s.closed = true := by
  intro hclosed
  have hnone := (h.closed hclosed).1
  rw [hwriting] at hnone
  cases hnone

/-- Everything that a call of the writer can do. -/
theorem Pipe.Sound.write (h : s.Sound o payloads) {data : List UInt8} {todo : List (List UInt8)}
    {w : Writing} (htodo : s.todo = data :: todo) (hwriting : s.writing = none)
    (hfailed : s.failed = none) (hstart : Writing.start data = .inl w) :
    Pipe.Sound o payloads { s with todo := todo, writing := some (data, w) } := by
  obtain ⟨hvalid, hpos, hlen⟩ := Writing.valid_start hstart
  have hhanded := h.idle hwriting hfailed
  refine { h with
    order := ?order, writing := ?writing, failed := ?failed, idle := ?idle, closed := ?closed }
  case order =>
    have horder := h.order
    rw [hwriting, hfailed, htodo] at horder
    simpa [hfailed] using horder
  case writing =>
    rintro data w ⟨⟩
    exact ⟨hfailed, hvalid, hlen, by rw [hpos, List.take_zero]; exact hhanded⟩
  case failed =>
    intro data status hf
    rw [hfailed] at hf
    cases hf
  case idle => exact nofun
  case closed =>
    intro hclosed
    rcases (h.closed hclosed).2 with hnil | hsome
    · rw [htodo] at hnil
      cases hnil
    · rw [hfailed] at hsome
      cases hsome

theorem Pipe.Sound.refused (h : s.Sound o payloads) {data : List UInt8}
    {todo : List (List UInt8)} {status : IoStatus} (htodo : s.todo = data :: todo)
    (hwriting : s.writing = none) (hfailed : s.failed = none)
    (hstart : Writing.start data = .inr status) :
    Pipe.Sound o payloads (Pipe.wrote { s with todo := todo } data [] status) := by
  have hne := Writing.start_fail hstart
  have hhanded := h.idle hwriting hfailed
  rw [Pipe.wrote, if_neg hne]
  refine { h with
    order := ?order, writing := ?writing, failed := ?failed, idle := ?idle, closed := ?closed
    stream := ?stream }
  case order =>
    have horder := h.order
    rw [hwriting, hfailed, htodo] at horder
    simpa using horder
  case writing => exact nofun
  case failed =>
    rintro data status ⟨⟩
    exact ⟨hne, List.nil_prefix, by rw [length_frame, List.length_nil]; omega, .inr rfl⟩
  case idle => exact nofun
  case closed => exact fun _ => ⟨rfl, .inr rfl⟩
  case stream =>
    have hstream := h.stream
    rw [hhanded] at hstream
    exact hstream

theorem Pipe.Sound.sent (h : s.Sound o payloads) {data : List UInt8} {w w' : Writing}
    {out : Outcome Nat} (hwriting : s.writing = some (data, w))
    (hturn : w.turn data out = some (.inl w')) :
    Pipe.Sound o payloads { s with
      bytes := s.bytes ++ w.handed data out
      writing := some (data, w')
      handed := s.handed ++ w.handed data out } := by
  obtain ⟨hfailed, hvalid, hlen, hhanded⟩ := h.writing data w hwriting
  obtain ⟨hvalid', htake⟩ := Writing.turn_more hvalid hturn
  refine { h with
    order := ?order, writing := ?writing, failed := ?failed, idle := ?idle, closed := ?closed
    stream := ?stream }
  case order =>
    have horder := h.order
    rw [hwriting] at horder
    exact horder
  case writing =>
    rintro data w ⟨⟩
    exact ⟨hfailed, hvalid', hlen, by rw [← htake, ← hhanded]⟩
  case failed =>
    intro data status hf
    rw [hfailed] at hf
    cases hf
  case idle => exact nofun
  case closed => exact fun hclosed => (h.not_closed hwriting hclosed).elim
  case stream =>
    have hstream := h.stream
    rw [← List.append_assoc, hstream, List.append_assoc]

theorem Pipe.Sound.wrote (h : s.Sound o payloads) {data : List UInt8} {w : Writing}
    {out : Outcome Nat} {status : IoStatus} (hwriting : s.writing = some (data, w))
    (hturn : w.turn data out = some (.inr status))
    (hstop : ∀ status, out = .stop status → status ≠ .kOk) :
    Pipe.Sound o payloads (Pipe.wrote { s with bytes := s.bytes ++ w.handed data out } data
      (s.handed ++ w.handed data out) status) := by
  obtain ⟨hfailed, hvalid, hlen, hhanded⟩ := h.writing data w hwriting
  have horder := h.order
  rw [hwriting, hfailed] at horder
  have hstream : s.written.flatMap Transfer.bytes ++ (s.handed ++ w.handed data out) =
      s.reads.flatMap Transfer.bytes ++ s.taken ++ (s.bytes ++ w.handed data out) := by
    rw [← List.append_assoc, h.stream, List.append_assoc]
  rcases Writing.turn_returns hvalid hturn with ⟨rfl, hframe⟩ | ⟨hout, hnothing⟩
  · -- the whole frame is out
    rw [Pipe.wrote, if_pos rfl]
    refine { h with
      order := ?order, whole := ?whole, writing := ?writing, failed := ?failed, idle := ?idle
      closed := ?closed, stream := ?stream }
    case order => simpa [hfailed] using horder
    case whole =>
      intro x hx
      rcases List.mem_append.mp hx with hx | hx
      · exact h.whole x hx
      · rw [List.mem_singleton.mp hx]
        exact ⟨by rw [hhanded]; exact hframe, hlen⟩
    case writing => exact nofun
    case failed =>
      intro data status hf
      rw [hfailed] at hf
      cases hf
    case idle => exact fun _ _ => rfl
    case closed => exact fun hclosed => (h.not_closed hwriting hclosed).elim
    case stream =>
      rw [List.flatMap_append, List.append_nil]
      simpa using hstream
  · -- the call has given up
    have hne := hstop status hout
    rw [Pipe.wrote, if_neg hne]
    have hkeep : s.handed ++ w.handed data out = (frame data).take w.pos := by
      rw [hnothing, List.append_nil, hhanded]
    refine { h with
      order := ?order, failed := ?failed, writing := ?writing, idle := ?idle, closed := ?closed
      stream := ?stream }
    case order => simpa using horder
    case failed =>
      rintro data status ⟨⟩
      refine ⟨hne, ?_, ?_, .inl hlen⟩
      · rw [hkeep]
        exact List.take_prefix _ _
      · have hpos := hvalid.pos_lt
        rw [hkeep, List.length_take]
        omega
    case writing => exact nofun
    case idle => exact nofun
    case closed => exact fun hclosed => (h.not_closed hwriting hclosed).elim
    case stream => exact hstream

/-- Everything that a turn of the reader does to the stream. -/
theorem Pipe.Sound.stream_recv (h : s.Sound o payloads) {out : Outcome (List UInt8)}
    (hfits : out.fits s.bytes s.closed = true) :
    s.written.flatMap Transfer.bytes ++ s.handed =
      s.reads.flatMap Transfer.bytes ++ (s.taken ++ out.chunk) ++ out.rest s.bytes := by
  rw [h.stream]
  nth_rewrite 1 [← Outcome.fits_split hfits]
  simp only [List.append_assoc]

theorem Pipe.Sound.received (h : s.Sound o payloads) {r r' : Reading}
    {out : Outcome (List UInt8)} (hreading : s.reading = some r)
    (hfits : out.fits s.bytes s.closed = true)
    (hturn : r.turn o.maxPayload out = some (.inl r')) :
    Pipe.Sound o payloads { s with
      bytes := out.rest s.bytes
      reading := some r'
      taken := s.taken ++ out.chunk } := by
  obtain ⟨hended, hhas, hacc⟩ := h.reading r hreading
  refine { h with stream := h.stream_recv hfits, reading := ?_, resting := nofun }
  rintro r ⟨⟩
  exact ⟨hended, Reading.turn_more hhas hacc hturn⟩

theorem Pipe.Sound.got_message (h : s.Sound o payloads) {r : Reading}
    {out : Outcome (List UInt8)} {status : IoStatus} {buf : List UInt8}
    (hreading : s.reading = some r) (hfits : out.fits s.bytes s.closed = true)
    (hturn : r.turn o.maxPayload out = some (.inr (status, buf)))
    (hstop : ∀ status, out = .stop status → status ≠ .kOk) :
    Pipe.Sound o payloads (Pipe.gotMessage { s with bytes := out.rest s.bytes }
      (s.taken ++ out.chunk) status buf) := by
  obtain ⟨hended, hhas, hacc⟩ := h.reading r hreading
  have hstream := h.stream_recv hfits
  by_cases hok : status = .kOk
  · rw [Pipe.gotMessage, if_pos hok]
    subst hok
    refine { h with stream := ?_, got := ?_, reading := nofun, resting := fun _ _ => rfl }
    · rw [List.flatMap_append, List.append_nil]
      simpa using hstream
    · intro x hx
      rcases List.mem_append.mp hx with hx | hx
      · exact h.got x hx
      · rw [List.mem_singleton.mp hx]
        rcases Reading.turn_returns hhas hacc hturn with
          ⟨-, hframe, hsize, -⟩ | ⟨hne, -⟩ | ⟨hout, -⟩
        · exact ⟨hframe, hsize⟩
        · cases hne
        · exact absurd rfl (hstop _ hout)
  · rw [Pipe.gotMessage, if_neg hok]
    exact { h with stream := hstream, reading := nofun, resting := nofun }

theorem Pipe.Sound.step (hstep : PipeStep o s e s') (h : s.Sound o payloads) :
    s'.Sound o payloads := by
  cases hstep with
  | write htodo hwriting hfailed hstart => exact h.write htodo hwriting hfailed hstart
  | refused htodo hwriting hfailed hstart => exact h.refused htodo hwriting hfailed hstart
  | sent hwriting _ hturn => exact h.sent hwriting hturn
  | wrote hwriting hout hturn =>
      refine h.wrote hwriting hturn ?_
      rintro status rfl
      exact WriteTurn.outcome_stop hout
  | close hopen hwriting hend => exact { h with closed := fun _ => ⟨hwriting, hend⟩ }
  | read hreading hended =>
      refine { h with reading := ?_, resting := nofun }
      rintro r ⟨⟩
      have htaken := h.resting hreading hended
      exact ⟨hended, by rw [htaken]; exact Reading.has_start, trivial⟩
  | received hreading _ hfits hturn => exact h.received hreading hfits hturn
  | got hreading hout hfits hturn =>
      refine h.got_message hreading hfits hturn ?_
      rintro status rfl
      exact ReadTurn.outcome_stop hout

theorem Pipe.sound_init (o : PipeOptions) (payloads : List (List UInt8)) :
    Pipe.Sound o payloads (pipe o payloads).init where
  order := by simp [pipe]
  whole := nofun
  writing := nofun
  failed := nofun
  idle _ _ := rfl
  closed := nofun
  stream := rfl
  reading := nofun
  resting _ _ := rfl
  got := nofun

theorem Pipe.sound_run {es : List PipeEvent} (h : (pipe o payloads).run es = some s) :
    s.Sound o payloads :=
  Machine.exec_invariant (fun _ _ _ hs hstep => hs.step (Pipe.step_cases hstep))
    (Pipe.sound_init o payloads) h

end Sound

/-! ## Runs without a timeout or an error -/

/-- Some bytes, or a turn to be repeated. -/
def WriteTurn.quiet (timeoutMs : Int) (t : WriteTurn) : Bool :=
  match t.outcome timeoutMs with
  | some (.moved _) | some .again => true
  | some (.stop _) | none => false

def WriteTurn.productive (timeoutMs : Int) (t : WriteTurn) : Bool :=
  match t.outcome timeoutMs with
  | some (.moved n) => decide (0 < n)
  | _ => false

def PipeEvent.quiet (o : PipeOptions) : PipeEvent → Bool
  | .send t => t.quiet o.writeTimeoutMs
  | .recv t => t.quiet o.readTimeoutMs
  | .write | .close | .read => true

/-- Not a turn to be repeated. -/
def PipeEvent.productive (o : PipeOptions) : PipeEvent → Bool
  | .send t => t.productive o.writeTimeoutMs
  | .recv t => t.productive o.readTimeoutMs
  | .write | .close | .read => true

/-- Nothing has failed, and the reader meets the end of the stream after the last
payload. -/
structure Pipe.Lossless (payloads : List (List UInt8)) (s : Pipe) : Prop where
  failed : s.failed = none
  ended : ∀ status out, s.ended = some (status, out) →
    status = .kPeerClosed ∧ s.reads.map Transfer.payload = payloads

section Lossless

variable {o : PipeOptions} {payloads : List (List UInt8)} {s s' : Pipe} {e : PipeEvent}

/-- What has been handed over is the start of the frames of all payloads. -/
theorem Pipe.Sound.stream_payloads (h : s.Sound o payloads) (hfailed : s.failed = none) :
    s.written.flatMap Transfer.bytes ++ s.handed <+: payloads.flatMap frame := by
  rw [flatMap_bytes (fun x hx => (h.whole x hx).1), ← h.order, hfailed, List.append_assoc,
    List.flatMap_append]
  refine (List.prefix_append_right_inj _).mpr ?_
  cases hw : s.writing with
  | none =>
      rw [h.idle hw hfailed]
      exact List.nil_prefix
  | some call =>
      obtain ⟨data, w⟩ := call
      obtain ⟨-, -, -, hhanded⟩ := h.writing data w hw
      simp only [Option.map_some, Option.toList_some, List.cons_append, List.flatMap_cons]
      rw [hhanded]
      exact (List.take_prefix _ _).trans (List.prefix_append _ _)

/-- The payloads that the reader has not read. -/
theorem Pipe.Sound.unread (h : s.Sound o payloads) :
    ∃ rest, payloads = s.reads.map Transfer.payload ++ rest := by
  obtain ⟨more, hmore⟩ := h.reads_initial
  refine ⟨more ++ (((s.writing.map Prod.fst).toList ++ (s.failed.map Prod.fst).toList) ++
    s.todo), ?_⟩
  rw [← List.append_assoc, hmore, ← List.append_assoc]
  exact h.order.symm

theorem Pipe.Sound.reads_length (h : s.Sound o payloads) : s.reads.length ≤ payloads.length := by
  obtain ⟨rest, hrest⟩ := h.unread
  rw [hrest, List.length_append, List.length_map]
  omega

/-- What the reader's call has received is the start of the frames of the payloads that
were not read. -/
theorem Pipe.Sound.taken_unread (h : s.Sound o payloads) (hfailed : s.failed = none)
    {rest : List (List UInt8)} (hrest : payloads = s.reads.map Transfer.payload ++ rest) :
    s.taken ++ s.bytes <+: rest.flatMap frame := by
  have hstream := h.stream_payloads hfailed
  rw [h.stream, hrest, List.flatMap_append, flatMap_bytes (fun x hx => (h.got x hx).1),
    List.append_assoc] at hstream
  exact (List.prefix_append_right_inj _).mp hstream

/-- No header is refused. -/
theorem Pipe.Sound.not_refused (h : s.Sound o payloads) (hfailed : s.failed = none)
    (hsmall : ∀ p ∈ payloads, p.length < 2 ^ 32 ∧ p.length ≤ o.maxPayload)
    {out : Outcome (List UInt8)} (hfits : out.fits s.bytes s.closed = true)
    (hlen : (s.taken ++ out.chunk).length = 4) :
    headerLength (s.taken ++ out.chunk) ≤ o.maxPayload := by
  obtain ⟨rest, hrest⟩ := h.unread
  have hin := h.taken_unread hfailed hrest
  rw [← Outcome.fits_split hfits, ← List.append_assoc] at hin
  cases rest with
  | nil =>
      have hle := hin.length_le
      rw [List.length_append, hlen] at hle
      simp at hle
  | cons p rest =>
      obtain ⟨hp, hmax⟩ := hsmall p (by rw [hrest]; simp)
      obtain ⟨tail, htail⟩ := hin
      have hdeclared := headerLength_frame hp (rest.flatMap frame)
      rw [List.flatMap_cons, List.append_assoc] at htail
      rw [← htail, headerLength_append hlen] at hdeclared
      omega

/-- At the end of the stream there is nothing left to read. -/
theorem Pipe.Sound.all_read (h : s.Sound o payloads) (hfailed : s.failed = none)
    (hsmall : ∀ p ∈ payloads, p.length < 2 ^ 32 ∧ p.length ≤ o.maxPayload) {r : Reading}
    (hreading : s.reading = some r) (hempty : s.bytes = []) (hclosed : s.closed = true) :
    s.reads.map Transfer.payload = payloads := by
  obtain ⟨rest, hrest⟩ := h.unread
  obtain ⟨hwriting, htodo⟩ := h.closed hclosed
  have htodo : s.todo = [] := by
    rcases htodo with htodo | hsome
    · exact htodo
    · rw [hfailed] at hsome
      cases hsome
  -- the writer has handed over every frame, so the reader's call has the rest
  have hwritten : s.written.map Transfer.payload = payloads := by
    have horder := h.order
    rw [hwriting, hfailed, htodo] at horder
    simpa using horder
  have htaken : rest.flatMap frame = s.taken := by
    have hstream := h.stream
    rw [h.idle hwriting hfailed, hempty, flatMap_bytes (fun x hx => (h.whole x hx).1), hwritten,
      flatMap_bytes (fun x hx => (h.got x hx).1), List.append_nil, List.append_nil, hrest,
      List.flatMap_append] at hstream
    exact List.append_cancel_left hstream
  cases rest with
  | nil => rw [hrest, List.append_nil]
  | cons p rest =>
      obtain ⟨-, hhas, -⟩ := h.reading r hreading
      have hp := (hsmall p (by rw [hrest]; simp)).1
      rw [List.flatMap_cons] at htaken
      exact absurd ⟨_, htaken⟩ (hhas.not_frame hp)

theorem Pipe.Lossless.step (hsmall : ∀ p ∈ payloads, p.length < 2 ^ 32 ∧ p.length ≤ o.maxPayload)
    (hstep : PipeStep o s e s') (hs : s.Sound o payloads) (h : s.Lossless payloads)
    (hquiet : e.quiet o = true) : s'.Lossless payloads := by
  cases hstep with
  | write | sent | close | read | received => exact ⟨h.failed, h.ended⟩
  | refused htodo hwriting hfailed hstart =>
      -- the payload is not too long
      have hmem : ∀ {data todo}, s.todo = data :: todo → data ∈ payloads := by
        intro data todo htodo
        rw [← hs.order, htodo]
        simp
      have hlen := (hsmall _ (hmem htodo)).1
      simp only [Writing.start] at hstart
      split at hstart
      next hbig => omega
      next => cases hstart
  | @wrote t data w out status hwriting hout hturn =>
      obtain ⟨-, hvalid, -, -⟩ := hs.writing data w hwriting
      rcases Writing.turn_returns hvalid hturn with ⟨rfl, -⟩ | ⟨rfl, -⟩
      · rw [Pipe.wrote, if_pos rfl]
        exact ⟨h.failed, h.ended⟩
      · simp [PipeEvent.quiet, WriteTurn.quiet, hout] at hquiet
  | @got t r out status buf hreading hout hfits hturn =>
      obtain ⟨hended, hhas, hacc⟩ := hs.reading r hreading
      rcases Reading.turn_returns hhas hacc hturn with
        ⟨rfl, -⟩ | ⟨rfl, -, hlen, hbig⟩ | ⟨rfl, -⟩
      · rw [Pipe.gotMessage, if_pos rfl]
        refine ⟨h.failed, ?_⟩
        intro status out hsome
        rw [show s.ended = some (status, out) from hsome] at hended
        cases hended
      · have hle := hs.not_refused h.failed hsmall hfits hlen
        omega
      · have hclosed : status = .kPeerClosed := by
          simp only [PipeEvent.quiet, ReadTurn.quiet, hout] at hquiet
          cases status <;> first | rfl | cases hquiet
        subst hclosed
        obtain ⟨hempty, hclosed⟩ : s.bytes = [] ∧ s.closed = true := by
          simpa [Outcome.fits] using hfits
        rw [Pipe.gotMessage, if_neg (by decide)]
        refine ⟨h.failed, ?_⟩
        rintro status out ⟨⟩
        exact ⟨rfl, hs.all_read h.failed hsmall hreading hempty hclosed⟩

/-! ## Progress -/

/-- The bytes that are to be handed over. -/
def Pipe.unsent (s : Pipe) : Nat :=
  (s.todo.flatMap frame).length +
    match s.writing with
    | some (data, w) => (frame data).length - w.pos
    | none => 0

/-- What the reader still has to do about its current call. -/
def Pipe.phase (s : Pipe) : Nat :=
  if s.ended.isSome = true then 0 else if s.reading.isSome = true then 1 else 2

/-- Every step that is not to be repeated lowers this. -/
def Pipe.rank (count : Nat) (s : Pipe) : Nat :=
  2 * s.unsent + s.bytes.length + s.todo.length + (if s.closed = true then 0 else 1) +
    2 * (count - s.reads.length) + s.phase

theorem Writing.length_chunk {data : List UInt8} {w : Writing} {n : Nat} (hn : n ≤ w.need data) :
    (w.chunk data n).length = n := by
  cases w with
  | header sent =>
      simp only [Writing.need, Writing.chunk, List.length_take, List.length_drop, length_header]
        at hn ⊢
      omega
  | payload sent =>
      simp only [Writing.need, Writing.chunk, List.length_take, List.length_drop] at hn ⊢
      omega

/-- A turn of the writer. -/
theorem Writing.turn_rank {data : List UInt8} {w : Writing} {out : Outcome Nat}
    (hvalid : w.Valid data) {call : Writing ⊕ IoStatus} (hturn : w.turn data out = some call) :
    ∃ pos, pos = w.pos + (w.handed data out).length ∧ pos ≤ (frame data).length ∧
      ∀ w', call = .inl w' → w'.pos = pos := by
  have hpos := hvalid.pos_lt
  rcases Writing.turn_cases hturn with ⟨n, rfl, hn, rfl⟩ | ⟨rfl, rfl⟩ | ⟨status, rfl, rfl⟩
  · have hlen : (w.handed data (.moved n)).length = n := Writing.length_chunk hn
    refine ⟨w.pos + n, by rw [hlen], ?_, ?_⟩
    · have htake := congrArg List.length (hvalid.take_append hn)
      rw [List.length_append, List.length_take, List.length_take, Writing.length_chunk hn] at htake
      omega
    · intro w' hw
      exact (Writing.send_more hvalid hn hw).2
  · refine ⟨w.pos, rfl, Nat.le_of_lt hpos, ?_⟩
    rintro w' ⟨⟩
    rfl
  · exact ⟨w.pos, rfl, Nat.le_of_lt hpos, nofun⟩

theorem WriteTurn.productive_le {timeoutMs : Int} {t : WriteTurn} {data : List UInt8} {w : Writing}
    {out : Outcome Nat} {call : Writing ⊕ IoStatus} (hout : t.outcome timeoutMs = some out)
    (hturn : w.turn data out = some call) :
    (t.productive timeoutMs).toNat ≤ (w.handed data out).length := by
  simp only [WriteTurn.productive, hout]
  rcases Writing.turn_cases hturn with ⟨n, rfl, hn, -⟩ | ⟨rfl, -⟩ | ⟨status, rfl, -⟩
  · rw [show (w.handed data (.moved n)).length = n from Writing.length_chunk hn]
    by_cases hpos : 0 < n
    · simp only [decide_eq_true hpos, Bool.toNat_true]
      exact hpos
    · simp [hpos]
  · exact Nat.zero_le _
  · exact Nat.zero_le _

theorem Outcome.length_rest {out : Outcome (List UInt8)} {bytes : List UInt8} {closed : Bool}
    (h : out.fits bytes closed = true) :
    out.chunk.length + (out.rest bytes).length = bytes.length := by
  rw [← List.length_append, Outcome.fits_split h]

theorem ReadTurn.productive_le {timeoutMs : Int} {maxPayload : Nat} {t : ReadTurn} {r r' : Reading}
    {out : Outcome (List UInt8)} (hout : t.outcome timeoutMs = some out)
    (hturn : r.turn maxPayload out = some (.inl r')) :
    (t.productive timeoutMs).toNat ≤ out.chunk.length := by
  simp only [ReadTurn.productive, hout]
  rcases Reading.turn_cases hturn with ⟨chunk, rfl, hpos, -⟩ | ⟨rfl, -⟩ | ⟨status, rfl, hstop⟩
  · exact hpos
  · exact Nat.zero_le _
  · cases hstop

theorem Pipe.rank_step (hstep : PipeStep o s e s') (hs : s.Sound o payloads)
    (hs' : s'.Sound o payloads) (hl' : s'.Lossless payloads) :
    s'.rank payloads.length + (e.productive o).toNat ≤ s.rank payloads.length := by
  have hreads := hs'.reads_length
  cases hstep with
  | @write data todo w htodo hwriting hfailed hstart =>
      obtain ⟨-, hpos, -⟩ := Writing.valid_start hstart
      simp only [Pipe.rank, Pipe.unsent, Pipe.phase, PipeEvent.productive, htodo, hwriting, hpos,
        List.flatMap_cons, List.length_append, List.length_cons, Bool.toNat_true]
      omega
  | @refused data todo status htodo hwriting hfailed hstart =>
      have hnone := hl'.failed
      rw [Pipe.wrote, if_neg (Writing.start_fail hstart)] at hnone
      cases hnone
  | @sent t data w w' out hwriting hout hturn =>
      obtain ⟨-, hvalid, -, -⟩ := hs.writing data w hwriting
      obtain ⟨pos, hpos, hle, hnext⟩ := Writing.turn_rank hvalid hturn
      have hprod := WriteTurn.productive_le hout hturn
      simp only [Pipe.rank, Pipe.unsent, Pipe.phase, PipeEvent.productive, hwriting, hnext w' rfl,
        List.length_append]
      omega
  | @wrote t data w out status hwriting hout hturn =>
      obtain ⟨-, hvalid, -, -⟩ := hs.writing data w hwriting
      obtain ⟨pos, hpos, hle, -⟩ := Writing.turn_rank hvalid hturn
      have hprod := WriteTurn.productive_le hout hturn
      have hok : status = .kOk := by
        by_contra hne
        have hnone := hl'.failed
        rw [Pipe.wrote, if_neg hne] at hnone
        cases hnone
      simp only [Pipe.wrote, if_pos hok, Pipe.rank, Pipe.unsent, Pipe.phase, PipeEvent.productive,
        hwriting, List.length_append]
      omega
  | close hopen =>
      simp only [Pipe.rank, Pipe.unsent, Pipe.phase, PipeEvent.productive, hopen, if_true,
        Bool.false_eq_true, if_false, Bool.toNat_true]
      omega
  | read hreading hended =>
      simp only [Pipe.rank, Pipe.unsent, Pipe.phase, PipeEvent.productive, hreading, hended,
        if_true, Option.isSome_none, Option.isSome_some, Bool.false_eq_true, if_false,
        Bool.toNat_true]
      omega
  | received hreading hout hfits hturn =>
      have hprod := ReadTurn.productive_le hout hturn
      have hlen := Outcome.length_rest hfits
      simp only [Pipe.rank, Pipe.unsent, Pipe.phase, PipeEvent.productive, hreading,
        Option.isSome_some]
      omega
  | @got t r out status buf hreading hout hfits hturn =>
      obtain ⟨hended, -, -⟩ := hs.reading r hreading
      have hlen := Outcome.length_rest hfits
      have hone := Bool.toNat_le (PipeEvent.productive o (.recv t))
      by_cases hok : status = .kOk
      · simp only [Pipe.gotMessage, if_pos hok, List.length_append, List.length_singleton] at hreads
        simp only [Pipe.gotMessage, if_pos hok, Pipe.rank, Pipe.unsent, Pipe.phase, hreading,
          hended, Option.isSome_none, Option.isSome_some, Bool.false_eq_true, if_false, if_true,
          List.length_append, List.length_singleton]
        omega
      · simp only [Pipe.gotMessage, if_neg hok, Pipe.rank, Pipe.unsent, Pipe.phase, hreading,
          hended, Option.isSome_none, Option.isSome_some, Bool.false_eq_true, if_false, if_true]
        omega

/-- Along a run without a timeout or an error. -/
theorem Pipe.lossless_run
    (hsmall : ∀ p ∈ payloads, p.length < 2 ^ 32 ∧ p.length ≤ o.maxPayload) :
    ∀ {es : List PipeEvent} {s s' : Pipe}, (∀ e ∈ es, PipeEvent.quiet o e = true) →
      s.Sound o payloads → s.Lossless payloads → (pipe o payloads).exec s es = some s' →
      s'.Lossless payloads ∧
        es.countP (PipeEvent.productive o) + s'.rank payloads.length ≤ s.rank payloads.length
  | [], s, s', _, _, hl, h => by
      cases h
      exact ⟨hl, by simp⟩
  | e :: es, s, s', hquiet, hs, hl, h => by
      obtain ⟨t, ht, hrest⟩ := Machine.exec_cons_iff.mp h
      have hstep := Pipe.step_cases ht
      have hst := hs.step hstep
      have hlt := hl.step hsmall hstep hs (hquiet e List.mem_cons_self)
      obtain ⟨hlast, hcount⟩ :=
        lossless_run hsmall (fun e he => hquiet e (List.mem_cons_of_mem _ he)) hst hlt hrest
      have hrank := Pipe.rank_step hstep hs hst hlt
      have hcons : (e :: es).countP (PipeEvent.productive o) =
          es.countP (PipeEvent.productive o) + (e.productive o).toNat := by
        rw [List.countP_cons]
        cases e.productive o <;> rfl
      exact ⟨hlast, by omega⟩

/-- A step that is not to be repeated can be taken, without a timeout or an error. -/
def Pipe.Enabled (o : PipeOptions) (s : Pipe) : Prop :=
  ∃ e, PipeEvent.quiet o e = true ∧ PipeEvent.productive o e = true ∧ (s.step o e).isSome = true

/-- The reader can go on while there are bytes for it, or the end of the stream. -/
theorem Pipe.enabled_recv {r : Reading} (hr : s.reading = some r) (hneed : 0 < r.need)
    (h : s.bytes ≠ [] ∨ s.closed = true) : s.Enabled o := by
  have hturn : ∀ {recv : Recv} {out : Outcome (List UInt8)}
      {call : Reading ⊕ (IoStatus × List UInt8)},
      ReadTurn.outcome o.readTimeoutMs { recv := recv } = some out → out.quiet = true →
      out.productive = true → out.fits s.bytes s.closed = true →
      r.turn o.maxPayload out = some call → s.Enabled o := by
    intro recv out call hout hquiet hprod hfits hcall
    refine ⟨.recv { recv := recv }, ?_, ?_, ?_⟩
    · simpa [PipeEvent.quiet, ReadTurn.quiet, hout] using hquiet
    · simpa [PipeEvent.productive, ReadTurn.productive, hout] using hprod
    · cases call <;> simp [Pipe.step, Pipe.recv, hr, hout, hfits, hcall]
  cases hb : s.bytes with
  | cons b rest =>
      have hout : ReadTurn.outcome o.readTimeoutMs { recv := .bytes [b] } = some (.moved [b]) := by
        simp only [ReadTurn.outcome, waitFor_ready]
      have hcall : r.turn o.maxPayload (.moved [b]) = some (r.recv o.maxPayload [b]) :=
        if_pos ⟨Nat.zero_lt_one, hneed⟩
      exact hturn hout rfl rfl (by simp [Outcome.fits, hb]) hcall
  | nil =>
      have hclosed : s.closed = true := h.resolve_left (fun hne => hne hb)
      have hout : ReadTurn.outcome o.readTimeoutMs { recv := .eof } =
          some (.stop .kPeerClosed) := by
        simp only [ReadTurn.outcome, waitFor_ready]
      have hcall : r.turn o.maxPayload (.stop .kPeerClosed) = some (.inr (r.stop .kPeerClosed)) :=
        rfl
      exact hturn hout rfl rfl (by simp [Outcome.fits, hb, hclosed]) hcall

/-- The writer can go on until it has closed. -/
theorem Pipe.enabled_write (hs : s.Sound o payloads) (hfailed : s.failed = none)
    (hopen : s.closed = false) : s.Enabled o := by
  cases hw : s.writing with
  | some call =>
      obtain ⟨data, w⟩ := call
      obtain ⟨-, hvalid, -, -⟩ := hs.writing data w hw
      have hout : WriteTurn.outcome o.writeTimeoutMs { send := .sent 1 } = some (.moved 1) := by
        simp only [WriteTurn.outcome, waitFor_ready]
      have hturn : w.turn data (.moved 1) = some (w.send data 1) := if_pos hvalid.need_pos
      refine ⟨.send { send := .sent 1 }, ?_, ?_, ?_⟩
      · simp [PipeEvent.quiet, WriteTurn.quiet, hout]
      · simp [PipeEvent.productive, WriteTurn.productive, hout]
      · cases hsend : w.send data 1 <;> simp [Pipe.step, Pipe.send, hw, hout, hturn, hsend]
  | none =>
      cases ht : s.todo with
      | nil => exact ⟨.close, rfl, rfl, by simp [Pipe.step, hopen, hw, ht]⟩
      | cons data todo =>
          refine ⟨.write, rfl, rfl, ?_⟩
          cases hstart : Writing.start data <;>
            simp [Pipe.step, Pipe.write, ht, hw, hfailed, hstart]

/-- Until the reader has met the end of the stream, somebody can go on. -/
theorem Pipe.Lossless.enabled (h : s.Lossless payloads) (hs : s.Sound o payloads)
    (hended : s.ended = none) : s.Enabled o := by
  cases hr : s.reading with
  | none => exact ⟨.read, rfl, rfl, by simp [Pipe.step, hr, hended]⟩
  | some r =>
      obtain ⟨-, hhas, -⟩ := hs.reading r hr
      by_cases hready : s.bytes ≠ [] ∨ s.closed = true
      · exact Pipe.enabled_recv hr hhas.need_pos hready
      · rw [not_or, Bool.not_eq_true] at hready
        exact Pipe.enabled_write hs h.failed hready.2

end Lossless

/-! ## The messages -/

/-- The size of the buffer that `read_exact` fills, and how much of it is filled. -/
def Reading.size : Reading → Nat
  | .header _ => 4
  | .payload len _ => len

def Reading.filled : Reading → Nat
  | .header got | .payload _ got => got.length

/-- What holds after every run. -/
structure Pipe.Faithful (o : PipeOptions) (payloads : List (List UInt8)) (s : Pipe) : Prop where
  /-- The calls that returned `kOk` have written the first payloads, each its frame. -/
  written : s.written.map Transfer.payload <+: payloads
  whole : ∀ x ∈ s.written, x.bytes = frame x.payload
  /-- A call that failed has handed over a proper part of its frame. -/
  failed : ∀ data status, s.failed = some (data, status) → status ≠ .kOk ∧
    s.handed <+: frame data ∧ s.handed ≠ frame data
  /-- The bytes received are the bytes handed over. -/
  stream : s.reads.flatMap Transfer.bytes ++ s.taken ++ s.bytes =
    s.written.flatMap Transfer.bytes ++ s.handed
  /-- The messages are those that were completely written, in order. -/
  reads : s.reads.map Transfer.payload <+: s.written.map Transfer.payload
  /-- Each has consumed its own bytes. -/
  consumed : ∀ x ∈ s.reads, x.bytes = frame x.payload ∧ x.bytes.length = 4 + x.payload.length
  /-- A `recv` stays inside the buffer. -/
  buffer : ∀ r out call, s.reading = some r → r.turn o.maxPayload out = some call →
    r.filled < r.size ∧ r.filled + out.chunk.length ≤ r.size

/-- What holds, besides, after a run without a timeout or an error. -/
structure Pipe.Complete (o : PipeOptions) (payloads : List (List UInt8)) (es : List PipeEvent)
    (s : Pipe) : Prop where
  failed : s.failed = none
  /-- The call that returned no message met the end of the stream, after all payloads. -/
  ended : ∀ status out, s.ended = some (status, out) →
    status = .kPeerClosed ∧ s.reads.map Transfer.payload = payloads
  /-- There are only so many steps, repeated turns aside, -/
  steps : es.countP (PipeEvent.productive o) ≤
    2 * (payloads.flatMap frame).length + 3 * payloads.length + 3
  /-- and another one can follow until that call. -/
  enabled : s.ended = none → s.Enabled o

theorem Reading.Has.filled_lt {r : Reading} {bytes : List UInt8} (h : r.Has bytes) :
    r.filled < r.size := by
  cases r with
  | header got => exact h.2
  | payload len got => exact h.2.2

theorem Reading.turn_fits {maxPayload : Nat} {r : Reading} {out : Outcome (List UInt8)}
    {call : Reading ⊕ (IoStatus × List UInt8)} {bytes : List UInt8} (h : r.Has bytes)
    (hturn : r.turn maxPayload out = some call) : r.filled + out.chunk.length ≤ r.size := by
  have hlt := h.filled_lt
  have hneed : r.need = r.size - r.filled := by cases r <;> rfl
  rcases Reading.turn_cases hturn with ⟨chunk, rfl, -, hle, -⟩ | ⟨rfl, -⟩ | ⟨status, rfl, -⟩
  · simp only [Outcome.chunk]
    omega
  · exact Nat.le_of_lt hlt
  · exact Nat.le_of_lt hlt

theorem Pipe.Sound.faithful {o : PipeOptions} {payloads : List (List UInt8)} {s : Pipe}
    (h : s.Sound o payloads) : s.Faithful o payloads := by
  constructor
  case written =>
    rw [← h.order, List.append_assoc]
    exact List.prefix_append _ _
  case whole => exact fun x hx => (h.whole x hx).1
  case failed =>
    intro data status hf
    obtain ⟨hne, hin, hshort, -⟩ := h.failed data status hf
    refine ⟨hne, hin, ?_⟩
    intro heq
    rw [heq] at hshort
    exact Nat.lt_irrefl _ hshort
  case stream => exact h.stream.symm
  case reads => exact h.reads_initial
  case consumed =>
    intro x hx
    have hx := (h.got x hx).1
    exact ⟨hx, by rw [hx, length_frame]⟩
  case buffer =>
    intro r out call hr hturn
    obtain ⟨-, hhas, -⟩ := h.reading r hr
    exact ⟨hhas.filled_lt, Reading.turn_fits hhas hturn⟩

theorem messages_survive (o : PipeOptions) (payloads : List (List UInt8)) {es : List PipeEvent}
    {s : Pipe} (h : (pipe o payloads).run es = some s) :
    s.Faithful o payloads ∧
      ((∀ p ∈ payloads, p.length ≤ min o.maxPayload (2 ^ 32 - 1)) →
        (∀ e ∈ es, PipeEvent.quiet o e = true) → s.Complete o payloads es) := by
  have hsound := Pipe.sound_run h
  refine ⟨hsound.faithful, fun hsize hquiet => ?_⟩
  have hsmall : ∀ p ∈ payloads, p.length < 2 ^ 32 ∧ p.length ≤ o.maxPayload := by
    intro p hp
    have hle := hsize p hp
    exact ⟨by omega, by omega⟩
  have hinit : (pipe o payloads).init.Lossless payloads := ⟨rfl, nofun⟩
  obtain ⟨hlossless, hcount⟩ :=
    Pipe.lossless_run hsmall hquiet (Pipe.sound_init o payloads) hinit h
  have hrank : (pipe o payloads).init.rank payloads.length =
      2 * (payloads.flatMap frame).length + 3 * payloads.length + 3 := by
    simp only [pipe, Pipe.rank, Pipe.unsent, Pipe.phase, List.length_nil, Nat.sub_zero,
      Option.isSome_none, Bool.false_eq_true, if_false]
    omega
  exact
    { failed := hlossless.failed
      ended := hlossless.ended
      steps := by omega
      enabled := hlossless.enabled hsound }

/-- Two messages, the first of them empty; the second is cut on both sides. -/
def twoMessages : List PipeEvent :=
  [.write, .send { send := .sent 4 }, .write, .send { send := .sent 3 }, .read,
    .recv { recv := .bytes [0, 0, 0, 0] }, .read, .recv { recv := .bytes [0, 0] },
    .send { send := .failed .eintr }, .send { send := .sent 1 }, .send { send := .sent 1 }, .close,
    .recv { recv := .failed .eagain }, .recv { recv := .bytes [0, 1] },
    .recv { recv := .bytes [7] }, .read, .recv { recv := .eof }]

theorem messages_survive_twoMessages : ∃ s,
    (pipe { maxPayload := 16 } [[], [7]]).run twoMessages = some s ∧
      s.reads.map Transfer.payload = [[], [7]] ∧
      s.Faithful { maxPayload := 16 } [[], [7]] ∧
      s.Complete { maxPayload := 16 } [[], [7]] twoMessages := by
  refine ⟨_, rfl, rfl, ?_⟩
  have h := @messages_survive { maxPayload := 16 } [[], [7]] twoMessages _ rfl
  exact ⟨h.1, h.2 (by decide) (by decide)⟩

end InferenceRouter.Connection
