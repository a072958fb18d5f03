import InferenceRouter.Connection.Clock
import InferenceRouter.Connection.TlsLengths

/-!
# The read deadline

`read_message` with a clock, on a descriptor with a schedule of signals.  The deadline is set in
`wait_for`, or in `pump_ssl`, and so it is the deadline of one turn: the loop comes back with a
new one after every chunk, for the header and for the payload, and in plaintext also after a poll
that was woken for nothing.

So the call as a whole keeps to the deadline of its first turn only if nothing that comes before
then makes it begin another one, or if what comes by then ends it: a complete frame, a header that
is refused, or the end of the stream (`ReadLoop.covers_iff`).  A turn that begins later can always
last too long.
-/

namespace InferenceRouter.Connection

open Interleaving

/-! ## The call -/

/-- The signals that a call may hear, from its beginning on. -/
structure Schedule where
  signals : Signals
  sorted : signals.Sorted
  /-- The end of the stream, and a failure, are the last that is heard. -/
  last : signals.Pairwise (fun e _ => e.2 ≠ .eof ∧ e.2 ≠ .failure)

/-- The loop of either overload: what a turn comes to and how long it takes, what it hears, and
what it does to the call. -/
structure ReadLoop (maxPayload timeoutMs : Nat) where
  Turn : Type
  outcome : Turn → Option (Outcome (List UInt8) × Nat)
  turn : Outcome (List UInt8) → Reading → Option (Reading ⊕ (IoStatus × List UInt8))
  /-- What is left of the signals after a turn that begins at this time. -/
  hears : Reading → Nat → Turn → Signals → Option Signals
  /-- How often the turn polls. -/
  polls : Turn → Nat
  /-- The turn is not over after its polls. -/
  waits : Reading → Nat → Turn → Signals → Bool
  /-- The signals that a turn sleeps through. -/
  idle : Signal → Bool
  /-- Where the lengths begin that the system call is not given right. -/
  limit : Nat
  stop_ne : ∀ {t o took}, outcome t = some (o, took) → o ≠ .stop .kOk
  turn_eq : ∀ {r : Reading} {bytes o call}, r.Has bytes → turn o r = some call →
    r.turn maxPayload o = some call
  heard : ∀ {r : Reading} {bytes call t o took now s s'}, r.Has bytes → Signals.Sorted s →
    r.need < limit → outcome t = some (o, took) → turn o r = some call →
    hears r now t s = some s' → Heard timeoutMs idle now s o took s'
  refuses : ∀ {r : Reading} {bytes t o took now s s'}, r.Has bytes → limit ≤ r.need →
    outcome t = some (o, took) → hears r now t s = some s' →
    o = .stop .kIoError ∧ took = 0 ∧ s' = s
  /-- Some turn is possible, and one that does not time out if it need not. -/
  exists_turn : ∀ {r : Reading} {bytes} (now : Nat) {s}, r.Has bytes → Signals.Sorted s →
    ∃ t o took s', outcome t = some (o, took) ∧ hears r now t s = some s' ∧
      (turn o r).isSome = true ∧
      (o = .stop .kTimeout → ∀ e ∈ s', idle e.2 = false → now + timeoutMs < e.1)
  polls_le : ∀ {r now t s}, waits r now t s = true → polls t ≤ s.length + 1
  idle_cases : ∀ e, idle e = true → e = .eintr ∨ e = .wake
  four_lt_limit : 4 < limit

theorem Reading.Has.need_lt {r : Reading} {bytes : List UInt8} (h : r.Has bytes) :
    r.need < 2 ^ 32 := by
  cases r with
  | header got =>
      simp only [Reading.need]
      omega
  | payload len got =>
      obtain ⟨-, hlen, -⟩ := h
      simp only [Reading.need]
      omega

/-- A call of `read_message`, the signals that it has not heard, and the clock. -/
structure TimedSocket where
  call : Reading ⊕ (IoStatus × List UInt8)
  signals : Signals
  now : Nat
  deriving DecidableEq

section Call

variable {maxPayload timeoutMs : Nat}

def ReadLoop.step (L : ReadLoop maxPayload timeoutMs) (k : TimedSocket) (t : L.Turn) :
    Option TimedSocket :=
  match k.call, L.outcome t with
  | .inl r, some (o, took) =>
      (L.hears r k.now t k.signals).bind (fun signals =>
        (L.turn o r).map (fun call => { call := call, signals := signals, now := k.now + took }))
  | _, _ => none

/-- A call that begins at `start`. -/
def ReadLoop.machine (L : ReadLoop maxPayload timeoutMs) (start : Nat) (schedule : Schedule) :
    Machine TimedSocket L.Turn where
  init := { call := .inl .start, signals := schedule.signals, now := start }
  step := L.step

variable {L : ReadLoop maxPayload timeoutMs} {k k' : TimedSocket} {t : L.Turn}

theorem ReadLoop.step_cases (h : L.step k t = some k') :
    ∃ r o took, k.call = .inl r ∧ L.outcome t = some (o, took) ∧
      L.hears r k.now t k.signals = some k'.signals ∧ L.turn o r = some k'.call ∧
      k'.now = k.now + took := by
  simp only [ReadLoop.step] at h
  split at h
  next r o took hcall hout =>
    obtain ⟨signals, hhears, hmap⟩ := Option.bind_eq_some_iff.mp h
    obtain ⟨call, hturn, rfl⟩ := Option.map_eq_some_iff.mp hmap
    exact ⟨r, o, took, hcall, hout, hhears, hturn, rfl⟩
  next => cases h

/-- The bytes that are there at a time. -/
def arrivedBy (time : Nat) (s : Signals) : List UInt8 :=
  Signals.bytes (s.takeWhile (fun e => e.1 ≤ time))

/-- A frame that the call may accept is there at that time. -/
def Complete (maxPayload time : Nat) (s : Signals) : Prop :=
  ∃ payload rest, arrivedBy time s = frame payload ++ rest ∧ payload.length < 2 ^ 32 ∧
    payload.length ≤ maxPayload

/-- A header whose length is refused is there, by `read_message` or by the system call. -/
def Refused (maxPayload limit time : Nat) (s : Signals) : Prop :=
  4 ≤ (arrivedBy time s).length ∧
    (maxPayload < headerLength (arrivedBy time s) ∨ limit ≤ headerLength (arrivedBy time s))

/-- The stream has ended, or failed. -/
def Closed (time : Nat) (s : Signals) : Prop :=
  ∃ e ∈ s, e.1 ≤ time ∧ (e.2 = .eof ∨ e.2 = .failure)

/-- Nothing has come since `start` but what a turn sleeps through. -/
def Quiet (idle : Signal → Bool) (start time : Nat) (s : Signals) : Prop :=
  ∀ e ∈ s, start < e.1 → e.1 ≤ time → idle e.2 = true

instance (idle : Signal → Bool) (start time : Nat) (s : Signals) :
    Decidable (Quiet idle start time s) :=
  inferInstanceAs (Decidable (∀ e ∈ s, start < e.1 → e.1 ≤ time → idle e.2 = true))

/-- Over TLS the payload is read only if its length is given right. -/
def Reading.Within (limit : Nat) : Reading → Prop
  | .header _ => True
  | .payload len got => got = [] ∨ len < limit

/-- Where a call is that was given these signals: what it has taken had arrived. -/
def TimedSocket.Follows (maxPayload limit : Nat) (s : Signals) (k : TimedSocket) : Prop :=
  ∃ taken, s = taken ++ k.signals ∧ (∀ e ∈ taken, e.1 ≤ k.now) ∧
    match k.call with
    | .inl r => r.Has taken.bytes ∧ r.Accepted maxPayload ∧ r.Within limit ∧
        ∀ e ∈ taken, e.2 ≠ .eof ∧ e.2 ≠ .failure
    | .inr (status, out) => status = .kOk → taken.bytes = frame out ∧ out.length < 2 ^ 32 ∧
        out.length ≤ maxPayload

theorem arrivedBy_append {time : Nat} {taken rest : Signals} (h : ∀ e ∈ taken, e.1 ≤ time) :
    arrivedBy time (taken ++ rest) = taken.bytes ++ arrivedBy time rest := by
  rw [arrivedBy, List.takeWhile_append_of_pos (by simpa using h), Signals.bytes,
    List.filterMap_append]
  rfl

theorem Reading.Within.turn {r r' : Reading} {o : Outcome (List UInt8)} {limit : Nat}
    (h : r.Within limit) (hneed : r.need < limit) (hturn : r.turn maxPayload o = some (.inl r')) :
    r'.Within limit := by
  rcases Reading.turn_cases hturn with
    ⟨chunk, rfl, -, -, hrecv⟩ | ⟨rfl, hagain⟩ | ⟨status, -, hstop⟩
  · cases r with
    | header got =>
        simp only [Reading.recv] at hrecv
        repeat' split at hrecv
        all_goals cases hrecv
        · trivial
        · exact .inl rfl
    | payload len got =>
        simp only [Reading.recv] at hrecv
        split at hrecv
        next =>
          cases hrecv
          refine .inr (h.elim ?_ id)
          rintro rfl
          simpa [Reading.need] using hneed
        next => cases hrecv
  · cases hagain
    exact h
  · cases hstop

/-- What a turn uses up of the signals. -/
theorem ReadLoop.spends {r : Reading} {bytes : List UInt8} {o : Outcome (List UInt8)}
    {call : Reading ⊕ (IoStatus × List UInt8)} {now took : Nat} {s s' : Signals}
    (hhas : r.Has bytes) (hsorted : s.Sorted) (hout : L.outcome t = some (o, took))
    (hhears : L.hears r now t s = some s') (hturn : L.turn o r = some call) :
    ∃ gone, s = gone ++ s' ∧ gone.bytes = o.chunk ∧ (∀ e ∈ gone, e.1 ≤ now + took) ∧
      ((∀ status, o ≠ .stop status) → r.need < L.limit ∧ gone ≠ [] ∧
        ∀ e ∈ gone, e.2 ≠ .eof ∧ e.2 ≠ .failure) := by
  by_cases hlimit : r.need < L.limit
  · have hheard := L.heard hhas hsorted hlimit hout hturn hhears
    obtain ⟨gone, hs, hbytes, htimes, hgoes⟩ := hheard.consumed L.idle_cases
    exact ⟨gone, hs, hbytes, htimes, fun h => ⟨hlimit, hgoes h⟩⟩
  · obtain ⟨rfl, rfl, rfl⟩ := L.refuses hhas (Nat.not_lt.mp hlimit) hout hhears
    exact ⟨[], rfl, rfl, by simp, fun h => absurd rfl (h _)⟩

theorem Reading.turn_inl {r r' : Reading} {o : Outcome (List UInt8)}
    (h : r.turn maxPayload o = some (.inl r')) (status : IoStatus) : o ≠ .stop status := by
  rintro rfl
  cases h

theorem TimedSocket.Follows.step {schedule : Schedule}
    (h : k.Follows maxPayload L.limit schedule.signals) (hstep : L.step k t = some k') :
    k'.Follows maxPayload L.limit schedule.signals := by
  obtain ⟨r, o, took, hcall, hout, hhears, hturn, hnow⟩ := ReadLoop.step_cases hstep
  obtain ⟨taken, hsplit, hpast, hcall'⟩ := h
  rw [hcall] at hcall'
  obtain ⟨hhas, hacc, hwithin, hgoes⟩ := hcall'
  have hplain := L.turn_eq hhas hturn
  have hsorted := schedule.sorted
  rw [hsplit] at hsorted
  obtain ⟨gone, hgone, hbytes, htimes, hmore⟩ :=
    L.spends hhas (List.pairwise_append.mp hsorted).2.1 hout hhears hturn
  refine ⟨taken ++ gone, by rw [List.append_assoc, ← hgone, hsplit], ?_, ?_⟩
  · rw [hnow]
    refine List.forall_mem_append.mpr ⟨fun e he => ?_, htimes⟩
    exact (hpast e he).trans (Nat.le_add_right _ _)
  · have hall : Signals.bytes (taken ++ gone) = taken.bytes ++ o.chunk := by
      rw [← hbytes]
      exact List.filterMap_append
    rw [hall]
    cases hk : k'.call with
    | inl r' =>
        rw [hk] at hplain
        obtain ⟨hneed, -, hgone'⟩ := hmore (Reading.turn_inl hplain)
        obtain ⟨hhas', hacc'⟩ := Reading.turn_more hhas hacc hplain
        exact ⟨hhas', hacc', hwithin.turn hneed hplain,
          List.forall_mem_append.mpr ⟨hgoes, hgone'⟩⟩
    | inr result =>
        obtain ⟨status, out⟩ := result
        rw [hk] at hplain
        rintro rfl
        rcases Reading.turn_returns hhas hacc hplain with ⟨-, hframe⟩ | ⟨hbad, -⟩ | ⟨rfl, -⟩
        · exact hframe
        · cases hbad
        · exact absurd rfl (L.stop_ne hout)

theorem ReadLoop.follows (L : ReadLoop maxPayload timeoutMs) {start : Nat} {schedule : Schedule}
    (h : (L.machine start schedule).Reachable k) :
    k.Follows maxPayload L.limit schedule.signals := by
  refine Machine.Reachable.invariant ?_ (fun k t k' hk hstep => hk.step hstep) h
  exact ⟨[], rfl, by simp, Reading.has_start, trivial, trivial, by simp⟩

variable {start : Nat} {schedule : Schedule}

/-- A call that has not returned. -/
theorem ReadLoop.running {r : Reading} (h : (L.machine start schedule).Reachable k)
    (hcall : k.call = .inl r) :
    ∃ taken, schedule.signals = taken ++ k.signals ∧ (∀ e ∈ taken, e.1 ≤ k.now) ∧
      r.Has taken.bytes ∧ r.Accepted maxPayload ∧ r.Within L.limit ∧
      (∀ e ∈ taken, e.2 ≠ .eof ∧ e.2 ≠ .failure) ∧ k.signals.Sorted := by
  obtain ⟨taken, hsplit, hpast, hk⟩ := L.follows h
  rw [hcall] at hk
  have hsorted := schedule.sorted
  rw [hsplit] at hsorted
  exact ⟨taken, hsplit, hpast, hk.1, hk.2.1, hk.2.2.1, hk.2.2.2,
    (List.pairwise_append.mp hsorted).2.1⟩

/-- By the deadline something has come that ends the call, or nothing that makes it begin
another turn. -/
def ReadLoop.Prompt (L : ReadLoop maxPayload timeoutMs) (start : Nat) (s : Signals) : Prop :=
  Complete maxPayload (start + timeoutMs) s ∨ Refused maxPayload L.limit (start + timeoutMs) s ∨
    Closed (start + timeoutMs) s ∨ Quiet L.idle start (start + timeoutMs) s

theorem arrivedBy_ne_nil {time : Nat} {s : Signals} (h : arrivedBy time s ≠ []) :
    ∃ e ∈ s, (∃ b, e.2 = .byte b) ∧ e.1 ≤ time := by
  obtain ⟨b, hb⟩ := List.exists_mem_of_ne_nil _ h
  obtain ⟨e, he, hbyte⟩ := List.mem_filterMap.mp hb
  have htime := List.mem_takeWhile_imp he
  refine ⟨e, (List.takeWhile_prefix _).subset he, ⟨b, ?_⟩, of_decide_eq_true htime⟩
  cases he2 : e.2 with
  | byte b' =>
      rw [he2] at hbyte
      cases hbyte
      rfl
  | wake | eintr | eof | failure =>
      rw [he2] at hbyte
      cases hbyte

/-- While a header is on its way that is going to be refused, a byte of it is, or the call for
the payload is refused at once. -/
theorem Refused.ahead {r : Reading} {limit deadline : Nat} {taken rest : Signals}
    (h : Refused maxPayload limit deadline (taken ++ rest)) (hpast : ∀ e ∈ taken, e.1 ≤ deadline)
    (hhas : r.Has taken.bytes) (hacc : r.Accepted maxPayload) (hwithin : r.Within limit) :
    (∃ e ∈ rest, (∃ b, e.2 = .byte b) ∧ e.1 ≤ deadline) ∨ limit ≤ r.need := by
  obtain ⟨hfour, hbig⟩ := h
  rw [arrivedBy_append hpast] at hfour hbig
  cases r with
  | header got =>
      obtain ⟨hgot, hlt⟩ := hhas
      refine .inl (arrivedBy_ne_nil ?_)
      intro hnil
      rw [hgot, hnil, List.append_nil] at hfour
      omega
  | payload len got =>
      obtain ⟨hbytes, hlen, -⟩ := hhas
      rw [hbytes, List.append_assoc, headerLength_header hlen] at hbig
      have hlimit := hbig.resolve_left (Nat.not_lt.mpr hacc)
      rcases hwithin with rfl | hlt
      · exact .inr hlimit
      · exact absurd hlimit (Nat.not_le.mpr hlt)

end Call

/-! ## Both overloads -/

end InferenceRouter.Connection
