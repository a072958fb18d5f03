import InferenceRouter.Connection.TlsFraming
import Mathlib.Data.List.TakeWhile

/-!
# Waiting with a clock

`wait_for` and `pump_ssl` with the time that their polls take, and what the kernel may answer
them.  The descriptor has a schedule of signals: bytes that come, polls that are woken or
interrupted, the end of the stream, a failure.  A system call takes no time unless it waits, and
a poll waits for the next signal or until its time is over.  Times are whole milliseconds.

A turn of `read_exact` or of `tls_read_exact` sleeps through some signals and ends with the first
one that it does not (`Heard`).  To `wait_for` a poll that is woken for nothing is such an end, to
`pump_ssl` it is not.  Over TLS a byte has come when `SSL_read` can return it, with the last one
of its record; what comes of a record before that wakes a poll for nothing.
-/

namespace InferenceRouter.Connection

/-! ## `wait_for` and `pump_ssl` with a clock -/

/-- A poll, and how long it took. -/
structure TimedPoll where
  poll : Poll
  took : Nat := 0

/-- The loop of `wait_for`, `elapsed` after its beginning: what it returns and when.  A poll
takes no longer than what remains, and reports a timeout when that is over. -/
def timedWait (timeoutMs : Nat) : Nat → List TimedPoll → Option (Wait × Nat)
  | _, [] => none
  | elapsed, p :: polls =>
      let remaining := timeoutMs - elapsed
      if remaining < p.took then none
      else
        match p.poll with
        | .failed errno =>
            if errno = .eintr then timedWait timeoutMs (elapsed + p.took) polls
            else some (.error, elapsed + p.took)
        | .timeout => if p.took = remaining then some (.timeout, elapsed + p.took) else none
        | .ready => some (.ready, elapsed + p.took)

/-- A turn of `pump_ssl`: the call, the poll, and how long the poll took. -/
structure TimedTry (α : Type) where
  result : SslResult α
  poll : Poll := .ready
  took : Nat := 0

/-- `pump_ssl`, `elapsed` after its beginning. -/
def timedPump {α : Type} (timeoutMs : Nat) : Nat → List (TimedTry α) → Option (Outcome α × Nat)
  | _, [] => none
  | elapsed, t :: tries =>
      match t.result with
      | .done a => some (.moved a, elapsed)
      | .zeroReturn | .syscall true => some (.stop .kPeerClosed, elapsed)
      | .syscall false | .failed => some (.stop .kIoError, elapsed)
      | .want =>
          if timeoutMs ≤ elapsed then some (.stop .kTimeout, elapsed)
          else
            let remaining := timeoutMs - elapsed
            if remaining < t.took then none
            else
              match t.poll with
              | .failed errno =>
                  if errno = .eintr then timedPump timeoutMs (elapsed + t.took) tries
                  else some (.stop .kIoError, elapsed + t.took)
              | .timeout =>
                  if t.took = remaining then some (.stop .kTimeout, elapsed + t.took) else none
              | .ready => timedPump timeoutMs (elapsed + t.took) tries

/-- A turn of `read_exact`. -/
structure TimedReadTurn where
  polls : List TimedPoll := [{ poll := .ready }]
  recv : Recv

def TimedReadTurn.untimed (t : TimedReadTurn) : ReadTurn :=
  { polls := t.polls.map TimedPoll.poll, recv := t.recv }

/-- What the turn comes to, and how long it takes. -/
def TimedReadTurn.outcome (timeoutMs : Nat) (t : TimedReadTurn) :
    Option (Outcome (List UInt8) × Nat) :=
  match timedWait timeoutMs 0 t.polls with
  | none => none
  | some (_, took) => (t.untimed.outcome timeoutMs).map (fun o => (o, took))

section Clock

variable {timeoutMs elapsed took : Nat}

theorem timedWait_le {polls : List TimedPoll} {w : Wait} (helapsed : elapsed ≤ timeoutMs)
    (h : timedWait timeoutMs elapsed polls = some (w, took)) : took ≤ timeoutMs := by
  induction polls generalizing elapsed with
  | nil => cases h
  | cons p polls ih =>
      simp only [timedWait] at h
      split at h
      next => cases h
      next hremaining =>
        have hle : elapsed + p.took ≤ timeoutMs := by omega
        split at h
        next =>
          split at h
          next => exact ih hle h
          next =>
            cases h
            exact hle
        next =>
          split at h
          next =>
            cases h
            exact hle
          next => cases h
        next =>
          cases h
          exact hle

/-- The clock only tells when. -/
theorem timedWait_untimed {polls : List TimedPoll} {w : Wait}
    (h : timedWait timeoutMs elapsed polls = some (w, took)) :
    waitFor timeoutMs (polls.map TimedPoll.poll) = some w := by
  have hloop : pollLoop (polls.map TimedPoll.poll) = some w := by
    induction polls generalizing elapsed with
    | nil => cases h
    | cons p polls ih =>
        simp only [timedWait] at h
        split at h
        next => cases h
        next =>
          simp only [List.map_cons]
          split at h
          next errno hpoll =>
            rw [hpoll]
            simp only [pollLoop]
            split at h
            next heintr => rw [if_pos heintr, ih h]
            next hother =>
              cases h
              rw [if_neg hother]
          next hpoll =>
            rw [hpoll]
            split at h
            next =>
              cases h
              rfl
            next => cases h
          next hpoll =>
            cases h
            rw [hpoll]
            rfl
  rw [waitFor, if_neg (by omega), hloop]

/-- A turn takes as long as its wait, and comes to what it does without a clock. -/
theorem TimedReadTurn.outcome_cases {t : TimedReadTurn} {o : Outcome (List UInt8)}
    (h : t.outcome timeoutMs = some (o, took)) :
    (∃ w, timedWait timeoutMs 0 t.polls = some (w, took)) ∧
      t.untimed.outcome timeoutMs = some o := by
  simp only [TimedReadTurn.outcome] at h
  split at h
  next => cases h
  next w took' hwait =>
    obtain ⟨o', hout, heq⟩ := Option.map_eq_some_iff.mp h
    cases heq
    exact ⟨⟨w, hwait⟩, hout⟩

end Clock

/-! ## Signals -/

/-- What happens on a descriptor. -/
inductive Signal where
  /-- A byte of the stream can be received. -/
  | byte (b : UInt8)
  /-- A poll is woken, and there is nothing to receive. -/
  | wake
  /-- A poll is interrupted. -/
  | eintr
  /-- The peer has closed its side. -/
  | eof
  | failure
  deriving DecidableEq

/-- Signals, with the times at which they come. -/
abbrev Signals := List (Nat × Signal)

/-- One signal does not come before another. -/
def Signals.Sorted (s : Signals) : Prop := s.Pairwise (fun a b => a.1 ≤ b.1)

instance (s : Signals) : Decidable s.Sorted :=
  inferInstanceAs (Decidable (s.Pairwise (fun a b => a.1 ≤ b.1)))

/-- The bytes among them. -/
def Signals.bytes (s : Signals) : List UInt8 :=
  s.filterMap (fun e => match e.2 with | .byte b => some b | _ => none)

/-- The signals that `read_exact` sleeps through. -/
def plainIdle (e : Signal) : Bool := decide (e = .eintr)

/-- The signals that `tls_read_exact` sleeps through. -/
def tlsIdle (e : Signal) : Bool := decide (e = .eintr ∨ e = .wake)

/-- An idle signal that finds no poll is lost. -/
def Signals.settle (idle : Signal → Bool) (now : Nat) (s : Signals) : Signals :=
  s.dropWhile (fun e => decide (e.1 ≤ now) && idle e.2)

/-- The bytes that one call can receive. -/
def Signals.receivable (now : Nat) : Signals → List UInt8
  | (time, .byte b) :: s => if time ≤ now then b :: Signals.receivable now s else []
  | _ => []

/-- The next signal is this one, and it is there. -/
def Signals.next (now : Nat) (e : Signal) : Signals → Option Signals
  | (time, e') :: s => if time ≤ now ∧ e' = e then some s else none
  | [] => none

/-- What is left of the signals after a poll at `now`. -/
def TimedPoll.hears (now : Nat) (p : TimedPoll) (s : Signals) : Option Signals :=
  match p.poll with
  | .failed errno =>
      if s.head?.any (fun e => max now e.1 = now + p.took) = true then
        s.next (now + p.took) (if errno = .eintr then .eintr else .failure)
      else none
  -- readiness stays
  | .ready =>
      let s' := s.settle plainIdle now
      if s'.head?.any (fun e => max now e.1 = now + p.took ∧ e.2 ≠ .eintr) = true then some s'
      else none
  | .timeout =>
      let s' := s.settle plainIdle now
      if s'.head?.all (fun e => now + p.took ≤ e.1) = true then some s' else none

/-- The poll was interrupted. -/
def Poll.interrupted : Poll → Bool
  | .failed errno => decide (errno = .eintr)
  | .ready | .timeout => false

/-- After the polls of `wait_for`. -/
def waitHears : Nat → List TimedPoll → Signals → Option Signals
  | _, [], _ => none
  | now, p :: polls, s =>
      (p.hears now s).bind (fun s' =>
        if p.poll.interrupted = true then waitHears (now + p.took) polls s' else some s')

/-- After `recv`, which poll has said is worth a try. -/
def Recv.hears (now : Nat) (recv : Recv) (s : Signals) : Option Signals :=
  match recv with
  | .bytes chunk =>
      if chunk.isPrefixOf (s.receivable now) = true then some (s.drop chunk.length) else none
  | .eof => s.next now .eof
  | .failed errno =>
      s.next now (if errno = .eintr ∨ errno = .eagain ∨ errno = .ewouldblock then .wake
        else .failure)

/-- After a turn of `read_exact`. -/
def TimedReadTurn.hears (timeoutMs now : Nat) (t : TimedReadTurn) (s : Signals) : Option Signals :=
  match timedWait timeoutMs 0 t.polls with
  | some (.ready, took) => (waitHears now t.polls s).bind (t.recv.hears (now + took))
  | some (_, _) => waitHears now t.polls s
  | none => none

/-- After `SSL_read` of that length.  It refuses a negative one, and wants more only if there is
nothing. -/
def SslResult.hears (now : Nat) (len : Int) (result : SslResult (List UInt8)) (s : Signals) :
    Option Signals :=
  if len < 0 then
    match result with
    | .failed => some s
    | _ => none
  else
    let s' := s.settle tlsIdle now
    match result with
    | .done chunk =>
        if chunk.isPrefixOf (s'.receivable now) = true then some (s'.drop chunk.length) else none
    | .zeroReturn | .syscall true => s'.next now .eof
    | .syscall false | .failed => s'.next now .failure
    | .want => if s'.head?.all (fun e => now < e.1) = true then some s else none

/-- A wake-up is over when it has woken a poll. -/
def Signals.woken : Signals → Signals
  | (_, .wake) :: s => s
  | s => s

/-- After the turns of `pump_ssl`, which began at `start`. -/
def pumpHears (timeoutMs start : Nat) (len : Int) :
    Nat → List (TimedTry (List UInt8)) → Signals → Option Signals
  | _, [], _ => none
  | elapsed, t :: tries, s =>
      (t.result.hears (start + elapsed) len s).bind (fun s₁ =>
        match t.result with
        | .want =>
            if timeoutMs ≤ elapsed then some s₁
            else
              (TimedPoll.hears (start + elapsed) ⟨t.poll, t.took⟩ s₁).bind (fun s₂ =>
                match t.poll with
                | .ready => pumpHears timeoutMs start len (elapsed + t.took) tries s₂.woken
                | .failed errno =>
                    if errno = .eintr then
                      pumpHears timeoutMs start len (elapsed + t.took) tries s₂
                    else some s₂
                | .timeout => some s₂)
        | _ => some s₁)

/-! ## Turns that are not over -/

/-- The polls of a call of `wait_for` that has not returned, and what is left of the signals. -/
def waiting (timeoutMs start : Nat) : Nat → List TimedPoll → Signals → Option Signals
  | _, [], s => some s
  | elapsed, p :: polls, s =>
      if p.took ≤ timeoutMs - elapsed ∧ p.poll.interrupted = true then
        (p.hears (start + elapsed) s).bind (waiting timeoutMs start (elapsed + p.took) polls)
      else none

/-- The signal that ends a turn, what the turn comes to, and what is left of the signals after
it. -/
inductive Ends (now : Nat) : Signal → Signals → Outcome (List UInt8) → Signals → Prop where
  /-- More bytes may be received with the first. -/
  | byte {b : UInt8} {chunk : List UInt8} {more rest : Signals} (htimes : ∀ e ∈ more, e.1 ≤ now)
      (hmore : more.map Prod.snd = chunk.map Signal.byte) :
      Ends now (.byte b) (more ++ rest) (.moved (b :: chunk)) rest
  | wake {rest : Signals} : Ends now .wake rest .again rest
  | ended {e : Signal} {rest : Signals} {status : IoStatus} (he : e = .eof ∨ e = .failure)
      (hstatus : status ≠ .kOk) : Ends now e rest (.stop status) rest

/-- A turn that begins at `now`.  It sleeps through the signals that are `idle` to it. -/
inductive Heard (timeoutMs : Nat) (idle : Signal → Bool) (now : Nat) (s : Signals) :
    Outcome (List UInt8) → Nat → Signals → Prop where
  | timeout {u rest : Signals} (hs : s = u ++ rest) (hidle : ∀ e ∈ u, idle e.2 = true)
      (htimes : ∀ e ∈ u, e.1 ≤ now + timeoutMs)
      (hrest : ∀ e ∈ rest, idle e.2 = false → now + timeoutMs ≤ e.1) :
      Heard timeoutMs idle now s (.stop .kTimeout) timeoutMs rest
  | signal {u after rest : Signals} {time took : Nat} {e : Signal}
      {o : Outcome (List UInt8)} (hs : s = u ++ (time, e) :: after)
      (hidle : ∀ e ∈ u, idle e.2 = true) (htimes : ∀ e ∈ u, e.1 ≤ now + took)
      (hbusy : idle e = false) (htime : time ≤ now + took)
      -- the turn does not wait for longer than that
      (hwait : took = 0 ∨ time = now + took) (hle : took ≤ timeoutMs)
      (hends : Ends (now + took) e after o rest) :
      Heard timeoutMs idle now s o took rest

section Heard

variable {timeoutMs now took : Nat} {idle : Signal → Bool}
  {s s' rest used : Signals} {o : Outcome (List UInt8)}

theorem Signals.next_eq_some {e : Signal} (h : s.next now e = some rest) :
    ∃ time, s = (time, e) :: rest ∧ time ≤ now := by
  cases s with
  | nil => cases h
  | cons e' s =>
      simp only [Signals.next] at h
      split at h
      next hnext =>
        cases h
        exact ⟨e'.1, by rw [← hnext.2], hnext.1⟩
      next => cases h

/-- What is lost was there, and idle. -/
theorem Signals.settle_append (idle : Signal → Bool) (now : Nat) (s : Signals) :
    ∃ used, s = used ++ s.settle idle now ∧ ∀ e ∈ used, e.1 ≤ now ∧ idle e.2 = true := by
  refine ⟨s.takeWhile (fun e => decide (e.1 ≤ now) && idle e.2),
    List.takeWhile_append_dropWhile.symm, fun e he => ?_⟩
  have hlost := List.mem_takeWhile_imp he
  simpa using hlost

theorem Signals.receivable_append {chunk : List UInt8} (h : chunk <+: s.receivable now) :
    ∃ bytes, s = bytes ++ s.drop chunk.length ∧ (∀ e ∈ bytes, e.1 ≤ now) ∧
      bytes.map Prod.snd = chunk.map Signal.byte := by
  induction chunk generalizing s with
  | nil => exact ⟨[], rfl, by simp, rfl⟩
  | cons b chunk ih =>
      match s, h with
      | (time, .byte b') :: s, h =>
          simp only [Signals.receivable] at h
          split at h
          next htime =>
            obtain ⟨rfl, hchunk⟩ := List.cons_prefix_cons.mp h
            obtain ⟨bytes, hs, htimes, hbytes⟩ := ih hchunk
            refine ⟨(time, .byte b) :: bytes, ?_, ?_, ?_⟩
            · rw [List.length_cons, List.drop_succ_cons, List.cons_append, ← hs]
            · intro e he
              rcases List.mem_cons.mp he with rfl | he
              · exact htime
              · exact htimes e he
            · rw [List.map_cons, List.map_cons, hbytes]
          next => simp at h
      | [], h | (_, .wake) :: _, h | (_, .eintr) :: _, h | (_, .eof) :: _, h
      | (_, .failure) :: _, h => simp [Signals.receivable] at h

theorem Signals.bytes_eq {chunk : List UInt8} (h : s.map Prod.snd = chunk.map Signal.byte) :
    s.bytes = chunk := by
  induction s generalizing chunk with
  | nil => exact (List.map_eq_nil_iff.mp h.symm).symm
  | cons e s ih =>
      cases chunk with
      | nil => cases h
      | cons b chunk =>
          simp only [List.map_cons, List.cons.injEq] at h
          rw [Signals.bytes, List.filterMap_cons, h.1, ← Signals.bytes, ih h.2]

/-- Signals that came before, and were slept through. -/
theorem Heard.append (used : Signals) (h : Heard timeoutMs idle now s o took rest)
    (hidle : ∀ e ∈ used, idle e.2 = true) (htimes : ∀ e ∈ used, e.1 ≤ now + took) :
    Heard timeoutMs idle now (used ++ s) o took rest := by
  cases h with
  | @timeout used' rest hs hidle' htimes' hrest =>
      refine .timeout (u := used ++ used') (by rw [hs, List.append_assoc]) ?_ ?_ hrest
      · exact List.forall_mem_append.mpr ⟨hidle, hidle'⟩
      · exact List.forall_mem_append.mpr ⟨htimes, htimes'⟩
  | @signal used' after rest time took e o hs hidle' htimes' hbusy htime hwait hle hends =>
      refine .signal (u := used ++ used') (by rw [hs, List.append_assoc]) ?_ ?_ hbusy htime
        hwait hle hends
      · exact List.forall_mem_append.mpr ⟨hidle, hidle'⟩
      · exact List.forall_mem_append.mpr ⟨htimes, htimes'⟩

/-- What a turn has used up. -/
theorem Heard.consumed (hquiet : ∀ e, idle e = true → e = .eintr ∨ e = .wake)
    (h : Heard timeoutMs idle now s o took rest) :
    ∃ gone, s = gone ++ rest ∧ gone.bytes = o.chunk ∧ (∀ e ∈ gone, e.1 ≤ now + took) ∧
      ((∀ status, o ≠ .stop status) → gone ≠ [] ∧ ∀ e ∈ gone, e.2 ≠ .eof ∧ e.2 ≠ .failure) := by
  have hnone : ∀ {used : Signals}, (∀ e ∈ used, idle e.2 = true) → used.bytes = [] := by
    intro used hidle
    refine List.filterMap_eq_nil_iff.mpr fun e he => ?_
    rcases hquiet e.2 (hidle e he) with heq | heq <;> rw [heq]
  have hgoes : ∀ {used : Signals}, (∀ e ∈ used, idle e.2 = true) →
      ∀ e ∈ used, e.2 ≠ .eof ∧ e.2 ≠ .failure := by
    intro used hidle e he
    rcases hquiet e.2 (hidle e he) with heq | heq <;> rw [heq] <;> exact ⟨by simp, by simp⟩
  cases h with
  | @timeout used _ hs hidle htimes =>
      exact ⟨used, hs, hnone hidle, htimes, fun h => absurd rfl (h _)⟩
  | @signal used after _ time took e o hs hidle htimes hbusy htime hwait hle hends =>
      cases hends with
      | @byte b chunk more rest hmoretimes hmore =>
          refine ⟨used ++ (time, .byte b) :: more, by simp [hs], ?_, ?_, fun _ => ⟨by simp, ?_⟩⟩
          · have hbytes : Signals.bytes more = chunk := Signals.bytes_eq hmore
            rw [Signals.bytes, List.filterMap_append, ← Signals.bytes, hnone hidle]
            exact congrArg (b :: ·) hbytes
          · simp only [List.forall_mem_append, List.forall_mem_cons]
            exact ⟨htimes, htime, hmoretimes⟩
          · simp only [List.forall_mem_append, List.forall_mem_cons]
            refine ⟨hgoes hidle, ⟨by simp, by simp⟩, fun e he => ?_⟩
            have hbyte : e.2 ∈ chunk.map Signal.byte := hmore ▸ List.mem_map_of_mem he
            obtain ⟨c, -, heq⟩ := List.mem_map.mp hbyte
            rw [← heq]
            exact ⟨by simp, by simp⟩
      | wake =>
          refine ⟨used ++ [(time, .wake)], by simp [hs], ?_, ?_, fun _ => ⟨by simp, ?_⟩⟩
          · rw [Signals.bytes, List.filterMap_append, ← Signals.bytes, hnone hidle]
            rfl
          · simp only [List.forall_mem_append, List.forall_mem_singleton]
            exact ⟨htimes, htime⟩
          · simp only [List.forall_mem_append, List.forall_mem_singleton]
            exact ⟨hgoes hidle, by simp, by simp⟩
      | ended he =>
          refine ⟨used ++ [(time, e)], by simp [hs], ?_, ?_, fun h => absurd rfl (h _)⟩
          · rw [Signals.bytes, List.filterMap_append, ← Signals.bytes, hnone hidle]
            rcases he with rfl | rfl <;> rfl
          · simp only [List.forall_mem_append, List.forall_mem_singleton]
            exact ⟨htimes, htime⟩

/-- The ways through a poll. -/
theorem TimedPoll.hears_cases {p : TimedPoll} (h : p.hears now s = some s') :
    (∃ errno time, p.poll = .failed errno ∧ max now time = now + p.took ∧
      s = (time, if errno = .eintr then .eintr else .failure) :: s') ∨
    (∃ used, s = used ++ s' ∧ (∀ e ∈ used, e.1 ≤ now ∧ plainIdle e.2 = true) ∧
      (p.poll = .ready ∧ (∃ time e after, s' = (time, e) :: after ∧
        max now time = now + p.took ∧ e ≠ .eintr) ∨
      p.poll = .timeout ∧ ∀ e ∈ s'.head?, now + p.took ≤ e.1)) := by
  simp only [TimedPoll.hears] at h
  split at h
  next errno hpoll =>
    split at h
    next htime =>
      obtain ⟨time, rfl, -⟩ := Signals.next_eq_some h
      exact .inl ⟨errno, time, hpoll, by simpa using htime, rfl⟩
    next => cases h
  next hpoll =>
    obtain ⟨used, hs, hused⟩ := s.settle_append plainIdle now
    split at h
    next hready =>
      cases h
      refine .inr ⟨used, hs, hused, .inl ⟨hpoll, ?_⟩⟩
      cases hsettle : s.settle plainIdle now with
      | nil => simp [hsettle] at hready
      | cons e after =>
          simp only [hsettle, List.head?_cons, Option.any_some, decide_eq_true_eq] at hready
          exact ⟨e.1, e.2, after, rfl, hready⟩
    next => cases h
  next hpoll =>
    obtain ⟨used, hs, hused⟩ := s.settle_append plainIdle now
    split at h
    next hlate =>
      cases h
      refine .inr ⟨used, hs, hused, .inr ⟨hpoll, fun e he => ?_⟩⟩
      rw [Option.mem_def] at he
      simpa [he] using hlate
    next => cases h

theorem Signals.Sorted.le_of_head (hsorted : s.Sorted) (time : Nat)
    (h : ∀ e ∈ s.head?, time ≤ e.1) : ∀ e ∈ s, time ≤ e.1 := by
  cases s with
  | nil => simp
  | cons first s =>
      have hfirst := h first rfl
      intro e he
      rcases List.mem_cons.mp he with rfl | he
      · exact hfirst
      · exact hfirst.trans ((List.pairwise_cons.mp hsorted).1 e he)

/-- A signal that a poll has waited for is the earliest there is. -/
theorem Signals.Sorted.notBefore {time elapsed start : Nat} {e : Signal}
    (hsorted : Signals.Sorted ((time, e) :: s)) (hpast : elapsed = 0 ∨
      ∀ e' ∈ (time, e) :: s, start + elapsed ≤ e'.1)
    (htime : max (start + elapsed) time = start + elapsed + took) :
    elapsed + took = 0 ∨ ∀ e' ∈ (time, e) :: s, start + (elapsed + took) ≤ e'.1 := by
  have hfirst : ∀ e' ∈ (time, e) :: s, time ≤ e'.1 := by
    intro e' he'
    rcases List.mem_cons.mp he' with rfl | he'
    · exact Nat.le_refl _
    · exact (List.pairwise_cons.mp hsorted).1 e' he'
  rcases hpast with hzero | hpast
  · by_cases htook : took = 0
    · exact .inl (by omega)
    · refine .inr fun e' he' => ?_
      have hle := hfirst e' he'
      omega
  · refine .inr fun e' he' => ?_
    have hle := hfirst e' he'
    have hold := hpast e' he'
    omega

end Heard

/-! ## `read_exact` -/

/-- A call of `wait_for` that begins at `start`. -/
inductive Waited (timeoutMs start : Nat) (s : Signals) : Wait → Nat → Signals → Prop where
  | timeout {u rest : Signals} (hs : s = u ++ rest) (hidle : ∀ e ∈ u, e.2 = .eintr)
      (htimes : ∀ e ∈ u, e.1 ≤ start + timeoutMs)
      (hrest : ∀ e ∈ rest, start + timeoutMs ≤ e.1) :
      Waited timeoutMs start s .timeout timeoutMs rest
  | ready {u after : Signals} {time took : Nat} {e : Signal}
      (hs : s = u ++ (time, e) :: after) (hidle : ∀ e ∈ u, e.2 = .eintr)
      (htimes : ∀ e ∈ u, e.1 ≤ start + took) (hbusy : e ≠ .eintr) (htime : time ≤ start + took)
      (hwait : took = 0 ∨ time = start + took) :
      Waited timeoutMs start s .ready took ((time, e) :: after)
  | error {u after : Signals} {time took : Nat}
      (hs : s = u ++ (time, .failure) :: after) (hidle : ∀ e ∈ u, e.2 = .eintr)
      (htimes : ∀ e ∈ u, e.1 ≤ start + took) (htime : time ≤ start + took)
      (hwait : took = 0 ∨ time = start + took) : Waited timeoutMs start s .error took after

section Plain

variable {timeoutMs start elapsed took : Nat} {s s' used : Signals} {w : Wait}
  {polls : List TimedPoll}

theorem Waited.append (used : Signals) (h : Waited timeoutMs start s w took s')
    (hidle : ∀ e ∈ used, e.2 = .eintr) (htimes : ∀ e ∈ used, e.1 ≤ start + took) :
    Waited timeoutMs start (used ++ s) w took s' := by
  cases h with
  | @timeout used' rest hs hidle' htimes' hrest =>
      exact .timeout (u := used ++ used') (by rw [hs, List.append_assoc])
        (List.forall_mem_append.mpr ⟨hidle, hidle'⟩)
        (List.forall_mem_append.mpr ⟨htimes, htimes'⟩) hrest
  | @ready used' after time took e hs hidle' htimes' hbusy htime hwait =>
      exact .ready (u := used ++ used') (by rw [hs, List.append_assoc])
        (List.forall_mem_append.mpr ⟨hidle, hidle'⟩)
        (List.forall_mem_append.mpr ⟨htimes, htimes'⟩) hbusy htime hwait
  | @error used' after time took hs hidle' htimes' htime hwait =>
      exact .error (u := used ++ used') (by rw [hs, List.append_assoc])
        (List.forall_mem_append.mpr ⟨hidle, hidle'⟩)
        (List.forall_mem_append.mpr ⟨htimes, htimes'⟩) htime hwait

/-- `wait_for`, from any of its polls on. -/
theorem waited (hsorted : s.Sorted) (hpast : elapsed = 0 ∨ ∀ e ∈ s, start + elapsed ≤ e.1)
    (helapsed : elapsed ≤ timeoutMs) (hwait : timedWait timeoutMs elapsed polls = some (w, took))
    (hs : waitHears (start + elapsed) polls s = some s') :
    elapsed ≤ took ∧ Waited timeoutMs start s w took s' := by
  induction polls generalizing elapsed s with
  | nil => cases hwait
  | cons p polls ih =>
      obtain ⟨s₁, hp, hrest⟩ := Option.bind_eq_some_iff.mp hs
      simp only [timedWait] at hwait
      split at hwait
      next => cases hwait
      next hremaining =>
        rcases TimedPoll.hears_cases hp with
          ⟨errno, time, hpoll, htime, rfl⟩ | ⟨used, rfl, hused, hother⟩
        · simp only [hpoll, Poll.interrupted, decide_eq_true_eq] at hwait hrest
          split at hwait
          next heintr =>
            -- the signal is an interruption, and `wait_for` polls again
            rw [if_pos heintr] at hrest
            subst heintr
            rw [Nat.add_assoc] at hrest
            have hnext := hsorted.notBefore hpast htime
            obtain ⟨hle, hrec⟩ := ih (List.pairwise_cons.mp hsorted).2
              (hnext.imp_right fun h e he => h e (List.mem_cons_of_mem _ he)) (by omega) hwait hrest
            refine ⟨by omega, hrec.append [(time, _)] ?_ ?_⟩
            · simp
            · simp only [List.mem_singleton, forall_eq]
              omega
          next hother =>
            rw [if_neg hother] at hrest
            cases hwait
            cases hrest
            rw [if_neg hother] at hsorted hpast ⊢
            refine ⟨by omega, .error (u := []) rfl (by simp) (by simp) (by omega) ?_⟩
            have hnext := hsorted.notBefore hpast htime
            have hfirst := hnext.imp_right fun h => h _ List.mem_cons_self
            simp only at hfirst
            omega
        · -- what is lost was there before the poll
          have hlost : ∀ e ∈ used, e.2 = .eintr := fun e he => of_decide_eq_true (hused e he).2
          have hthere : ∀ {took}, elapsed ≤ took → ∀ e ∈ used, e.1 ≤ start + took := by
            intro took hle e he
            have htime := (hused e he).1
            omega
          rcases hother with ⟨hpoll, time, e, after, rfl, htime, hbusy⟩ | ⟨hpoll, hlate⟩
          · simp only [hpoll, Poll.interrupted] at hwait hrest
            cases hwait
            cases hrest
            have hnext := Signals.Sorted.notBefore (List.pairwise_append.mp hsorted).2.1
              (hpast.imp_right fun h e he => h e (List.mem_append_right _ he)) htime
            have hfirst := hnext.imp_right fun h => h _ List.mem_cons_self
            simp only at hfirst
            refine ⟨by omega, .ready rfl hlost (hthere (by omega)) hbusy (by omega) (by omega)⟩
          · simp only [hpoll, Poll.interrupted] at hwait hrest
            cases hrest
            split at hwait
            next htook =>
              cases hwait
              have hsum : elapsed + p.took = timeoutMs := by omega
              rw [Nat.add_assoc, hsum] at hlate
              rw [hsum]
              exact ⟨helapsed, .timeout rfl hlost (hthere helapsed)
                (Signals.Sorted.le_of_head (List.pairwise_append.mp hsorted).2.1 _ hlate)⟩
            next => cases hwait

theorem Recv.hears_ends {now time : Nat} {recv : Recv} {e : Signal} {after : Signals}
    {o : Outcome (List UInt8)} {t : ReadTurn} (hrecv : t.recv = recv)
    (hready : waitFor timeoutMs t.polls = some .ready) (ho : t.outcome timeoutMs = some o)
    (hmoved : ∀ chunk, o = .moved chunk → chunk ≠ [])
    (h : recv.hears now ((time, e) :: after) = some s') : Ends now e after o s' := by
  simp only [ReadTurn.outcome, hready, hrecv] at ho
  cases recv with
  | bytes chunk =>
      cases ho
      simp only [Recv.hears] at h
      split at h
      next hprefix =>
        cases h
        obtain ⟨bytes, hs, htimes, hbytes⟩ :=
          Signals.receivable_append (List.isPrefixOf_iff_prefix.mp hprefix)
        cases chunk with
        | nil => exact absurd rfl (hmoved [] rfl)
        | cons b chunk =>
            cases bytes with
            | nil => cases hbytes
            | cons e' bytes =>
                rw [List.cons_append, List.cons.injEq] at hs
                obtain ⟨rfl, hafter⟩ := hs
                simp only [List.map_cons, List.cons.injEq] at hbytes
                obtain ⟨rfl, hbytes⟩ := hbytes
                nth_rewrite 1 [hafter]
                exact .byte (fun x hx => htimes x (List.mem_cons_of_mem _ hx)) hbytes
      next => cases h
  | eof =>
      cases ho
      simp only [Recv.hears] at h
      obtain ⟨time', hs, -⟩ := Signals.next_eq_some h
      cases hs
      exact .ended (.inl rfl) (by simp)
  | failed errno =>
      simp only [Recv.hears] at h
      obtain ⟨time', hs, -⟩ := Signals.next_eq_some h
      rw [List.cons.injEq, Prod.mk.injEq] at hs
      obtain ⟨⟨-, rfl⟩, rfl⟩ := hs
      simp only at ho
      split at ho
      next heintr =>
        cases ho
        rw [if_pos (.inl heintr)]
        exact .wake
      next heintr =>
        split at ho
        next hagain =>
          cases ho
          rw [if_pos (.inr hagain)]
          exact .wake
        next hagain =>
          cases ho
          rw [if_neg (not_or.mpr ⟨heintr, hagain⟩)]
          exact .ended (.inr rfl) (by simp)

theorem TimedReadTurn.heard {now : Nat} {t : TimedReadTurn} {o : Outcome (List UInt8)}
    (hsorted : s.Sorted) (hmoved : ∀ chunk, o = .moved chunk → chunk ≠ [])
    (ho : t.outcome timeoutMs = some (o, took)) (hs : t.hears timeoutMs now s = some s') :
    Heard timeoutMs plainIdle now s o took s' := by
  obtain ⟨⟨w, hwait⟩, hout⟩ := TimedReadTurn.outcome_cases ho
  have hle := timedWait_le (Nat.zero_le _) hwait
  have hloop := timedWait_untimed hwait
  have hidle : ∀ {used : Signals}, (∀ e ∈ used, e.2 = .eintr) →
      ∀ e ∈ used, plainIdle e.2 = true := fun h e he => decide_eq_true (h e he)
  have hcases : ∀ {s₁}, waitHears now t.polls s = some s₁ → Waited timeoutMs now s w took s₁ :=
    fun h => (waited hsorted (.inl rfl) (Nat.zero_le _) hwait h).2
  cases w with
  | timeout =>
      simp only [TimedReadTurn.hears, hwait] at hs
      simp only [ReadTurn.outcome, TimedReadTurn.untimed, hloop] at hout
      cases hout
      cases hcases hs with
      | timeout hs hused htimes hrest =>
          exact .timeout hs (hidle hused) htimes (fun e he _ => hrest e he)
  | error =>
      simp only [TimedReadTurn.hears, hwait] at hs
      simp only [ReadTurn.outcome, TimedReadTurn.untimed, hloop] at hout
      cases hout
      cases hcases hs with
      | error hs hused htimes htime hwait =>
          exact .signal hs (hidle hused) htimes rfl htime hwait hle (.ended (.inr rfl) (by simp))
  | ready =>
      simp only [TimedReadTurn.hears, hwait] at hs
      obtain ⟨s₁, hs₁, hrecv⟩ := Option.bind_eq_some_iff.mp hs
      cases hcases hs₁ with
      | ready hs hused htimes hbusy htime hwait =>
          exact .signal hs (hidle hused) htimes (decide_eq_false hbusy) htime hwait hle
            (Recv.hears_ends (t := t.untimed) rfl hloop hout hmoved hrecv)

end Plain

/-! ## `tls_read_exact` -/

section Tls

variable {timeoutMs start elapsed took : Nat} {len : Int} {s s' : Signals}
  {o : Outcome (List UInt8)} {tries : List (TimedTry (List UInt8))}

/-- A signal that is there when `SSL_read` is called. -/
theorem heard_there {time : Nat} {e : Signal} {after : Signals}
    (hpast : elapsed = 0 ∨ ∀ e ∈ s, start + elapsed ≤ e.1) (helapsed : elapsed ≤ timeoutMs)
    (hs : s.settle tlsIdle (start + elapsed) = (time, e) :: after) (htime : time ≤ start + elapsed)
    (hbusy : tlsIdle e = false) (hends : Ends (start + elapsed) e after o s') :
    Heard timeoutMs tlsIdle start s o elapsed s' := by
  obtain ⟨used, hsplit, hused⟩ := s.settle_append tlsIdle (start + elapsed)
  rw [hs] at hsplit
  refine .signal hsplit (fun e he => (hused e he).2) (fun e he => (hused e he).1) hbusy htime ?_
    helapsed hends
  refine hpast.imp_right fun h => Nat.le_antisymm htime (h (time, e) ?_)
  rw [hsplit]
  exact List.mem_append_right _ List.mem_cons_self

/-- `SSL_read` that does not want more. -/
theorem SslResult.hears_ends {result : SslResult (List UInt8)} (hlen : ¬ len < 0)
    (hpast : elapsed = 0 ∨ ∀ e ∈ s, start + elapsed ≤ e.1) (helapsed : elapsed ≤ timeoutMs)
    (hmoved : ∀ chunk, o = .moved chunk → chunk ≠ []) {p : Poll} {t : Nat}
    (ho : timedPump timeoutMs elapsed (⟨result, p, t⟩ :: tries) = some (o, took))
    (hwant : result ≠ .want) (h : result.hears (start + elapsed) len s = some s') :
    took = elapsed ∧ Heard timeoutMs tlsIdle start s o elapsed s' := by
  simp only [SslResult.hears, if_neg hlen] at h
  have hnext : ∀ {e status},
      (s.settle tlsIdle (start + elapsed)).next (start + elapsed) e = some s' →
      e = .eof ∨ e = .failure → status ≠ .kOk →
      Heard timeoutMs tlsIdle start s (.stop status) elapsed s' := by
    intro e status hnext he hstatus
    obtain ⟨time, hs, htime⟩ := Signals.next_eq_some hnext
    refine heard_there hpast helapsed hs htime ?_ (.ended he hstatus)
    rcases he with rfl | rfl <;> rfl
  cases result with
  | want => exact absurd rfl hwant
  | zeroReturn =>
      cases ho
      exact ⟨rfl, hnext h (.inl rfl) (by simp)⟩
  | failed =>
      cases ho
      exact ⟨rfl, hnext h (.inr rfl) (by simp)⟩
  | syscall zero =>
      cases zero with
      | true =>
          cases ho
          exact ⟨rfl, hnext h (.inl rfl) (by simp)⟩
      | false =>
          cases ho
          exact ⟨rfl, hnext h (.inr rfl) (by simp)⟩
  | done chunk =>
      cases ho
      simp only at h
      split at h
      next hprefix =>
        cases h
        obtain ⟨bytes, hs, htimes, hbytes⟩ :=
          Signals.receivable_append (List.isPrefixOf_iff_prefix.mp hprefix)
        cases chunk with
        | nil => exact absurd rfl (hmoved [] rfl)
        | cons b chunk =>
            cases bytes with
            | nil => cases hbytes
            | cons e bytes =>
                simp only [List.map_cons, List.cons.injEq] at hbytes
                obtain ⟨hb, hbytes⟩ := hbytes
                have hthere := List.forall_mem_cons.mp htimes
                refine ⟨rfl, heard_there hpast helapsed hs hthere.1 ?_ ?_⟩
                · rw [hb]
                  rfl
                · rw [hb]
                  exact .byte hthere.2 hbytes
      next => cases h

end Tls

/-! ## Turns that the kernel allows -/

section Exists

variable {timeoutMs start elapsed : Nat} {s : Signals}

variable {maxPayload : Nat} {r : Reading} {bytes : List UInt8}

/-- A call that wants more goes on to its poll. -/
theorem pumpHears_want {len : Int} (hlen : ¬ len < 0) (hlate : ¬ timeoutMs ≤ elapsed)
    (hnothing : (s.settle tlsIdle (start + elapsed)).head?.all
      (fun e => decide (start + elapsed < e.1)) = true)
    (poll : Poll) (took : Nat) (tries : List (TimedTry (List UInt8))) :
    pumpHears timeoutMs start len elapsed (⟨.want, poll, took⟩ :: tries) s =
      (TimedPoll.hears (start + elapsed) ⟨poll, took⟩ s).bind (fun s₂ =>
        match poll with
        | .ready => pumpHears timeoutMs start len (elapsed + took) tries s₂.woken
        | .failed errno =>
            if errno = .eintr then pumpHears timeoutMs start len (elapsed + took) tries s₂
            else some s₂
        | .timeout => some s₂) := by
  have hwant : SslResult.hears (start + elapsed) len .want s = some s := by
    simp only [SslResult.hears, if_neg hlen, if_pos hnothing]
  simp only [pumpHears, hwant, Option.bind_some, if_neg hlate]

/-- `pump_ssl` can come to its end.  It need not miss a signal that comes in time. -/
def PumpEnds (maxPayload timeoutMs start : Nat) (len : Int) (r : Reading) (elapsed : Nat)
    (s : Signals) : Prop :=
  ∃ (tries : List (TimedTry (List UInt8))) (o : Outcome (List UInt8)) (took : Nat) (s' : Signals),
    timedPump timeoutMs elapsed tries = some (o, took) ∧
    pumpHears timeoutMs start len elapsed tries s = some s' ∧
    (r.turnTls maxPayload o).isSome = true ∧
    (o = .stop .kTimeout → ∀ e ∈ s', tlsIdle e.2 = false → start + timeoutMs < e.1)

variable {len : Int}

/-- One more turn of the pump. -/
theorem PumpEnds.cons {poll : Poll} {took : Nat} {s₁ s₂ : Signals}
    (h : PumpEnds maxPayload timeoutMs start len r (elapsed + took) s₂) (hlen : ¬ len < 0)
    (hnothing : (s.settle tlsIdle (start + elapsed)).head?.all
      (fun e => decide (start + elapsed < e.1)) = true)
    (hearly : elapsed < timeoutMs) (hremaining : took ≤ timeoutMs - elapsed)
    (hpoll : poll = .ready ∧ s₂ = s₁.woken ∨ poll = .failed .eintr ∧ s₂ = s₁)
    (hhears : TimedPoll.hears (start + elapsed) ⟨poll, took⟩ s = some s₁) :
    PumpEnds maxPayload timeoutMs start len r elapsed s := by
  obtain ⟨tries, o, total, s', hpump, hpumps, hturn, hgreedy⟩ := h
  have hearly' := Nat.not_le.mpr hearly
  have hremaining' := Nat.not_lt.mpr hremaining
  refine ⟨⟨.want, poll, took⟩ :: tries, o, total, s', ?_, ?_, hturn, hgreedy⟩
  · rcases hpoll with ⟨rfl, rfl⟩ | ⟨rfl, rfl⟩
    · simpa [timedPump, hearly', hremaining'] using hpump
    · simpa [timedPump, hearly', hremaining'] using hpump
  · rw [pumpHears_want hlen hearly' hnothing, hhears]
    rcases hpoll with ⟨rfl, rfl⟩ | ⟨rfl, rfl⟩
    · exact hpumps
    · exact hpumps

end Exists

end InferenceRouter.Connection
