import InferenceRouter.Connection.Tls
import InferenceRouter.Interleaving.Machine

/-!
# The deadline of `pump_ssl`

`pump_ssl` of `tls.cpp` with its clock, the codes of OpenSSL and the arguments of its polls.
One event is a turn of the loop: `op` is invoked and, if it wants to be tried again, the clock
is read and `poll` waits for what remains until the deadline, which is set once, on entry.

What the calls return and when is the environment's choice, as long as the clock does not go
back.  `pumpLoop_untimed` relates the loop to `pumpSsl`, where the clock only says whether the
deadline has passed.
-/

namespace InferenceRouter.Connection

open Interleaving

/-! ## The loop -/

/-- What `SSL_get_error` says of a call that did not succeed. -/
inductive SslError where
  | zeroReturn
  | wantRead
  | wantWrite
  | syscall
  /-- Or any other code. -/
  | ssl
  deriving DecidableEq

/-- The events that a poll waits for. -/
inductive PollEvents where
  | pollin
  | pollout
  deriving DecidableEq

deriving instance DecidableEq for Poll

/-- What the loop does. -/
inductive PumpAct where
  /-- `op` is invoked while the clock shows `begun`. -/
  | op (begun rc : Int)
  /-- `clock::now`. -/
  | now (t : Int)
  /-- `poll`, and the reading of the clock that its timeout was computed from. -/
  | poll (read : Option Int) (events : PollEvents) (timeout : Int) (result : Poll)
  deriving DecidableEq

/-- A turn of the loop: what its calls return, and what the clock shows meanwhile. -/
structure PumpTurn where
  begun : Int
  rc : Int
  err : SslError := .ssl
  read : Int
  poll : Poll := .ready

structure Pump where
  /-- The clock, when it was last looked at. -/
  clock : Int
  acts : List PumpAct := []
  /-- `*out_bytes`, unless that is a null pointer. -/
  outBytes : Option Int
  /-- What the call has returned. -/
  status : Option IoStatus := none
  deriving DecidableEq

/-- The clock counts nanoseconds. -/
def nsPerMs : Int := 1000000

/-- The deadline, set on entry at `start`. -/
def pumpDeadline (timeoutMs start : Int) : Int :=
  start + (if 0 ≤ timeoutMs then timeoutMs else 0) * nsPerMs

/-- `static_cast<int>`. -/
def castInt (n : Int) : Int := n.bmod (2 ^ 32)

/-- `remaining`, from a reading of the clock before the deadline. -/
def pumpRemaining (timeoutMs start read : Int) : Int :=
  castInt ((pumpDeadline timeoutMs start - read).tdiv nsPerMs)

/-- What the loop makes of a poll: a status to return, or another turn. -/
def polled (timeoutMs : Int) : Poll → Option IoStatus
  | .failed errno => if errno = .eintr then none else some .kIoError
  | .timeout => if 0 ≤ timeoutMs then some .kTimeout else none
  | .ready => none

/-- A turn of the loop, from `op` on. -/
def Pump.turn (timeoutMs start : Int) (s : Pump) (t : PumpTurn) : Pump :=
  let op := .op t.begun t.rc
  if 0 < t.rc then
    { clock := t.begun, acts := s.acts ++ [op], outBytes := s.outBytes.map (fun _ => t.rc),
      status := some .kOk }
  else if t.err = .zeroReturn then
    { s with clock := t.begun, acts := s.acts ++ [op], status := some .kPeerClosed }
  else if t.err ≠ .wantRead ∧ t.err ≠ .wantWrite then
    { s with
      clock := t.begun
      acts := s.acts ++ [op]
      status := if t.err = .syscall ∧ t.rc = 0 then some .kPeerClosed else some .kIoError }
  else
    let events := if t.err = .wantRead then PollEvents.pollin else .pollout
    if 0 ≤ timeoutMs then
      if pumpDeadline timeoutMs start ≤ t.read then
        { s with clock := t.read, acts := s.acts ++ [op, .now t.read], status := some .kTimeout }
      else
        { s with
          clock := t.read
          acts := s.acts ++ [op, .now t.read,
            .poll (some t.read) events (pumpRemaining timeoutMs start t.read) t.poll]
          status := polled timeoutMs t.poll }
    else
      { s with
        clock := t.begun
        acts := s.acts ++ [op, .poll none events (-1) t.poll]
        status := polled timeoutMs t.poll }

/-- `pump_ssl`, entered at `start`. -/
def pumpLoop (timeoutMs start : Int) (out : Option Int) : Machine Pump PumpTurn where
  init := { clock := start, outBytes := out }
  step s t :=
    if s.status = none ∧ s.clock ≤ t.begun ∧ t.begun ≤ t.read then some (s.turn timeoutMs start t)
    else none

/-! ## What a turn can do -/

/-- The ways through a turn. -/
inductive PumpStep (timeoutMs start : Int) (s : Pump) (t : PumpTurn) : Pump → Prop where
  | done (hrc : 0 < t.rc) :
      PumpStep timeoutMs start s t {
        clock := t.begun
        acts := s.acts ++ [.op t.begun t.rc]
        outBytes := s.outBytes.map (fun _ => t.rc)
        status := some .kOk }
  | fails {status : IoStatus} (hrc : t.rc ≤ 0)
      (hstatus : status = .kPeerClosed ∨ status = .kIoError) :
      PumpStep timeoutMs start s t { s with
        clock := t.begun
        acts := s.acts ++ [.op t.begun t.rc]
        status := some status }
  | late (hrc : t.rc ≤ 0) (htimed : 0 ≤ timeoutMs) (hlate : pumpDeadline timeoutMs start ≤ t.read) :
      PumpStep timeoutMs start s t { s with
        clock := t.read
        acts := s.acts ++ [.op t.begun t.rc, .now t.read]
        status := some .kTimeout }
  | polls {events : PollEvents} (hrc : t.rc ≤ 0) (htimed : 0 ≤ timeoutMs)
      (hread : t.read < pumpDeadline timeoutMs start) :
      PumpStep timeoutMs start s t { s with
        clock := t.read
        acts := s.acts ++ [.op t.begun t.rc, .now t.read,
          .poll (some t.read) events (pumpRemaining timeoutMs start t.read) t.poll]
        status := polled timeoutMs t.poll }
  | waits {events : PollEvents} (hrc : t.rc ≤ 0) (huntimed : timeoutMs < 0) :
      PumpStep timeoutMs start s t { s with
        clock := t.begun
        acts := s.acts ++ [.op t.begun t.rc, .poll none events (-1) t.poll]
        status := polled timeoutMs t.poll }

section Turn

variable {timeoutMs start : Int} {out : Option Int} {s s' : Pump} {t : PumpTurn}

theorem Pump.turn_cases (timeoutMs start : Int) (s : Pump) (t : PumpTurn) :
    PumpStep timeoutMs start s t (s.turn timeoutMs start t) := by
  simp only [Pump.turn]
  split
  next hrc => exact .done hrc
  next hrc =>
    have hrc := Int.not_lt.mp hrc
    split
    next => exact .fails hrc (.inl rfl)
    next =>
      split
      next =>
        split
        next => exact .fails hrc (.inl rfl)
        next => exact .fails hrc (.inr rfl)
      next =>
        split
        next htimed =>
          split
          next hlate => exact .late hrc htimed hlate
          next hread => exact .polls hrc htimed (Int.not_le.mp hread)
        next huntimed => exact .waits hrc (Int.not_le.mp huntimed)

theorem pumpLoop_step_cases (h : (pumpLoop timeoutMs start out).step s t = some s') :
    s.status = none ∧ s.clock ≤ t.begun ∧ t.begun ≤ t.read ∧ PumpStep timeoutMs start s t s' := by
  simp only [pumpLoop] at h
  split at h
  next hon =>
    cases h
    exact ⟨hon.1, hon.2.1, hon.2.2, Pump.turn_cases timeoutMs start s t⟩
  next => cases h

/-- `timeout` is what remains until the deadline at `t`, with the rest of the last
millisecond cut off. -/
structure Remains (deadline t timeout : Int) : Prop where
  nonneg : 0 ≤ timeout
  le : timeout * nsPerMs ≤ deadline - t
  lt : deadline - t < (timeout + 1) * nsPerMs

theorem pumpRemaining_remains {read : Int} (hmax : timeoutMs < 2 ^ 31) (htimed : 0 ≤ timeoutMs)
    (hstart : start ≤ read) (hread : read < pumpDeadline timeoutMs start) :
    Remains (pumpDeadline timeoutMs start) read (pumpRemaining timeoutMs start read) := by
  have hdeadline : pumpDeadline timeoutMs start = start + timeoutMs * nsPerMs := by
    rw [pumpDeadline, if_pos htimed]
  have hnonneg : 0 ≤ pumpDeadline timeoutMs start - read := by omega
  simp only [pumpRemaining, castInt, Int.tdiv_eq_ediv_of_nonneg hnonneg]
  simp only [hdeadline, nsPerMs] at hread hnonneg ⊢
  -- what remains is at most `timeoutMs` milliseconds, and that is an `int`
  rw [Int.bmod_eq_of_le (by omega) (by omega)]
  refine ⟨by omega, ?_, ?_⟩ <;> rw [nsPerMs] <;> omega

end Turn

/-! ## The whole call -/

/-- `op` is invoked, and the clock shows the deadline or more. -/
def PumpAct.lateOp (deadline : Int) : PumpAct → Bool
  | .op begun _ => decide (deadline ≤ begun)
  | .now _ | .poll .. => false

/-- What an invocation of `op` returned. -/
def PumpAct.rc? : PumpAct → Option Int
  | .op _ rc => some rc
  | .now _ | .poll .. => none

/-- The timeout of a poll. -/
def PumpAct.timeout? : PumpAct → Option Int
  | .poll _ _ timeout _ => some timeout
  | .op .. | .now _ => none

/-- What the last invocation of `op` returned. -/
def Pump.lastRc (s : Pump) : Option Int := (s.acts.filterMap PumpAct.rc?).getLast?

/-- The last thing done is a reading of the clock at or past the deadline, or a poll that was
given all that remained at the reading right before it, and has used it up. -/
def TimedOut (deadline : Int) (acts : List PumpAct) : Prop :=
  (∃ before t, acts = before ++ [.now t] ∧ deadline ≤ t) ∨
    ∃ before t events timeout,
      acts = before ++ [.now t, .poll (some t) events timeout .timeout] ∧
        Remains deadline t timeout

theorem TimedOut.append_left {deadline : Int} {seg : List PumpAct} (h : TimedOut deadline seg)
    (acts : List PumpAct) : TimedOut deadline (acts ++ seg) := by
  rcases h with ⟨before, t, rfl, hlate⟩ | ⟨before, t, events, timeout, rfl, hremains⟩
  · exact .inl ⟨acts ++ before, t, by rw [List.append_assoc], hlate⟩
  · exact .inr ⟨acts ++ before, t, events, timeout, by rw [List.append_assoc], hremains⟩

/-- What a call owes, whether or not it has returned. -/
structure PumpHonours (timeoutMs start : Int) (out : Option Int) (s : Pump) : Prop where
  /-- A poll waits for what remained when the clock was read. -/
  polls : 0 ≤ timeoutMs → ∀ read events timeout result,
    .poll read events timeout result ∈ s.acts → ∃ t, read = some t ∧ .now t ∈ s.acts ∧
      Remains (pumpDeadline timeoutMs start) t timeout
  lateOps : 0 ≤ timeoutMs →
    s.acts.countP (PumpAct.lateOp (pumpDeadline timeoutMs start)) ≤ 1
  timeout : s.status = some .kTimeout →
    TimedOut (pumpDeadline timeoutMs start) s.acts
  ok : s.status = some .kOk ↔ ∃ rc, s.lastRc = some rc ∧ 0 < rc
  stored : ∀ rc, s.status = some .kOk → s.lastRc = some rc → s.outBytes = out.map (fun _ => rc)
  unstored : s.status ≠ some .kOk → s.outBytes = out
  untimed : timeoutMs < 0 → s.status ≠ some .kTimeout

/-- What the turns keep. -/
structure PumpSound (timeoutMs start : Int) (out : Option Int) (s : Pump) : Prop
    extends PumpHonours timeoutMs start out s where
  clock : start ≤ s.clock
  /-- As long as the call goes on, `op` has been invoked before the deadline only. -/
  running : s.status = none → 0 ≤ timeoutMs →
    s.acts.countP (PumpAct.lateOp (pumpDeadline timeoutMs start)) = 0

section Run

variable {timeoutMs start : Int} {out : Option Int} {s s' : Pump} {t : PumpTurn}

theorem pumpSound_init : PumpSound timeoutMs start out (pumpLoop timeoutMs start out).init where
  polls := by simp [pumpLoop]
  lateOps := by simp [pumpLoop]
  timeout := by simp [pumpLoop]
  ok := by simp [pumpLoop, Pump.lastRc]
  stored := by simp [pumpLoop]
  unstored := by simp [pumpLoop]
  untimed := by simp [pumpLoop]
  clock := Int.le_refl _
  running := by simp [pumpLoop]

/-- A turn invokes `op` once, and first. -/
theorem Pump.lastRc_append {acts : List PumpAct} (seg : List PumpAct)
    (hacts : s.acts = acts ++ .op t.begun t.rc :: seg) (hseg : ∀ a ∈ seg, a.rc? = none) :
    s.lastRc = some t.rc := by
  have hnone : seg.filterMap PumpAct.rc? = [] := List.filterMap_eq_nil_iff.mpr hseg
  simp [Pump.lastRc, hacts, PumpAct.rc?, hnone]

theorem countP_lateOp_append {deadline : Int} {acts seg : List PumpAct}
    (hacts : acts.countP (PumpAct.lateOp deadline) = 0) (hseg : ∀ a ∈ seg, a.rc? = none) :
    (acts ++ .op t.begun t.rc :: seg).countP (PumpAct.lateOp deadline) =
      (decide (deadline ≤ t.begun)).toNat := by
  have hnone : seg.countP (PumpAct.lateOp deadline) = 0 := by
    rw [List.countP_eq_zero]
    intro a ha
    have hrc := hseg a ha
    cases a with
    | op => cases hrc
    | now | poll => nofun
  rw [List.countP_append, hacts, List.countP_cons, hnone, Nat.zero_add, Nat.zero_add,
    PumpAct.lateOp]
  cases decide (deadline ≤ t.begun) <;> rfl

/-- A turn of any kind.  It invokes `op`, and goes on only if that was before the deadline. -/
theorem PumpSound.append (h : PumpSound timeoutMs start out s) (hon : s.status = none)
    (seg : List PumpAct) (hacts : s'.acts = s.acts ++ .op t.begun t.rc :: seg)
    (hseg : ∀ a ∈ seg, a.rc? = none)
    (hpolls : 0 ≤ timeoutMs → ∀ read events timeout result,
      .poll read events timeout result ∈ seg → ∃ t, read = some t ∧ .now t ∈ seg ∧
        Remains (pumpDeadline timeoutMs start) t timeout)
    (hok : s'.status = some .kOk ↔ 0 < t.rc)
    (hstored : s'.outBytes = if 0 < t.rc then s.outBytes.map (fun _ => t.rc) else s.outBytes)
    (htimeout : s'.status = some .kTimeout → 0 ≤ timeoutMs ∧
      TimedOut (pumpDeadline timeoutMs start) seg)
    (hclock : start ≤ s'.clock)
    (hrunning : s'.status = none → 0 ≤ timeoutMs → t.begun < pumpDeadline timeoutMs start) :
    PumpSound timeoutMs start out s' := by
  have hlast := Pump.lastRc_append seg hacts hseg
  have hout : s.outBytes = out := h.unstored (by rw [hon]; nofun)
  have hcount := fun htimed => countP_lateOp_append (t := t) (h.running hon htimed) hseg
  refine {
    clock := hclock
    polls := ?polls
    lateOps := ?lateOps
    timeout := ?timeout
    ok := ?ok
    stored := ?stored
    unstored := ?unstored
    untimed := ?untimed
    running := ?running }
  case polls =>
    intro htimed read events timeout result hpoll
    rw [hacts, List.mem_append, List.mem_cons] at hpoll
    rcases hpoll with hold | hop | hnew
    · obtain ⟨t', hread, hnow, hremains⟩ := h.polls htimed read events timeout result hold
      exact ⟨t', hread, hacts ▸ List.mem_append_left _ hnow, hremains⟩
    · cases hop
    · obtain ⟨t', hread, hnow, hremains⟩ := hpolls htimed read events timeout result hnew
      exact ⟨t', hread, hacts ▸ List.mem_append_right _ (List.mem_cons_of_mem _ hnow), hremains⟩
  case lateOps =>
    intro htimed
    rw [hacts, hcount htimed]
    exact Bool.toNat_le _
  case timeout =>
    intro hstatus
    rw [hacts, List.append_cons]
    exact (htimeout hstatus).2.append_left _
  case ok => simp only [hlast, Option.some.injEq, exists_eq_left', hok]
  case stored =>
    intro rc hstatus hrc
    rw [hlast, Option.some.injEq] at hrc
    rw [hstored, if_pos (hok.mp hstatus), hout, hrc]
  case unstored =>
    intro hstatus
    rw [hstored, if_neg (fun hrc => hstatus (hok.mpr hrc)), hout]
  case untimed =>
    intro huntimed hstatus
    have htimed := (htimeout hstatus).1
    omega
  case running =>
    intro hon' htimed
    rw [hacts, hcount htimed]
    simp [hrunning hon' htimed]

theorem polled_ne_kOk (timeoutMs : Int) (p : Poll) : polled timeoutMs p ≠ some .kOk := by
  cases p with
  | ready => nofun
  | failed errno =>
      simp only [polled]
      split <;> nofun
  | timeout =>
      simp only [polled]
      split <;> nofun

/-- A poll ends the call with a timeout only if there is a deadline, and only by its own. -/
theorem polled_kTimeout {p : Poll} (h : polled timeoutMs p = some .kTimeout) :
    0 ≤ timeoutMs ∧ p = .timeout := by
  cases p with
  | ready => cases h
  | failed errno =>
      simp only [polled] at h
      split at h <;> cases h
  | timeout =>
      simp only [polled] at h
      split at h
      next htimed => exact ⟨htimed, rfl⟩
      next => cases h

theorem PumpSound.step (hmax : timeoutMs < 2 ^ 31) (h : PumpSound timeoutMs start out s)
    (hstep : (pumpLoop timeoutMs start out).step s t = some s') :
    PumpSound timeoutMs start out s' := by
  obtain ⟨hon, hbegun, hread, hturn⟩ := pumpLoop_step_cases hstep
  have hstart : start ≤ t.begun := h.clock.trans hbegun
  cases hturn with
  | done hrc =>
      refine h.append hon (t := t) [] rfl nofun nofun ?_ ?_ nofun hstart nofun
      · exact iff_of_true rfl hrc
      · rw [if_pos hrc]
  | fails hrc hstatus =>
      have hneg : ¬ 0 < t.rc := Int.not_lt.mpr hrc
      refine h.append hon (t := t) [] rfl nofun nofun ?_ ?_ ?_ hstart nofun
      · rcases hstatus with rfl | rfl <;> exact iff_of_false nofun hneg
      · rw [if_neg hneg]
      · rcases hstatus with rfl | rfl <;> nofun
  | late hrc htimed hlate =>
      have hneg : ¬ 0 < t.rc := Int.not_lt.mpr hrc
      refine h.append hon (t := t) [.now t.read] rfl ?_ ?_ ?_ ?_ ?_ ?_ nofun
      · simp [PumpAct.rc?]
      · simp
      · exact iff_of_false nofun hneg
      · rw [if_neg hneg]
      · exact fun _ => ⟨htimed, .inl ⟨[], t.read, rfl, hlate⟩⟩
      · exact hstart.trans hread
  | @polls events hrc htimed hearly =>
      have hneg : ¬ 0 < t.rc := Int.not_lt.mpr hrc
      have hremains := pumpRemaining_remains hmax htimed (hstart.trans hread) hearly
      refine h.append hon (t := t) _ rfl ?_ ?_ ?_ ?_ ?_ ?_ ?_
      · simp [PumpAct.rc?]
      · rintro - read events timeout result hpoll
        simp only [List.mem_cons, reduceCtorEq, List.not_mem_nil, or_false, false_or,
          PumpAct.poll.injEq] at hpoll
        obtain ⟨rfl, -, rfl, -⟩ := hpoll
        exact ⟨t.read, rfl, by simp, hremains⟩
      · exact iff_of_false (polled_ne_kOk _ _) hneg
      · rw [if_neg hneg]
      · intro hstatus
        obtain ⟨-, hpoll⟩ := polled_kTimeout hstatus
        exact ⟨htimed, .inr ⟨[], t.read, events, _, by rw [hpoll]; rfl, hremains⟩⟩
      · exact hstart.trans hread
      · exact fun _ _ => hread.trans_lt hearly
  | waits hrc huntimed =>
      have hneg : ¬ 0 < t.rc := Int.not_lt.mpr hrc
      refine h.append hon (t := t) _ rfl ?_ ?_ ?_ ?_ ?_ hstart ?_
      · simp [PumpAct.rc?]
      · intro htimed
        omega
      · exact iff_of_false (polled_ne_kOk _ _) hneg
      · rw [if_neg hneg]
      · intro hstatus
        have htimed := (polled_kTimeout hstatus).1
        omega
      · intro _ htimed
        omega

end Run

theorem pump_honours_deadline (timeoutMs : Int32) (start : Int) (out : Option Int)
    {ts : List PumpTurn} {s : Pump}
    (h : (pumpLoop timeoutMs.toInt start out).run ts = some s) :
    PumpHonours timeoutMs.toInt start out s := by
  have hmax : timeoutMs.toInt < 2 ^ 31 := timeoutMs.toInt_lt
  have hsound : PumpSound timeoutMs.toInt start out s :=
    Machine.exec_invariant (fun s t s' hs hstep => hs.step hmax hstep) pumpSound_init h
  exact hsound.toPumpHonours

/-- The first turn's poll is woken, the second one's interrupted, and the third one's waits for
the one whole millisecond that is left. -/
def interruptedPoll : List PumpTurn :=
  [{ begun := 100, rc := -1, err := .wantRead, read := 1500100 },
    { begun := 1700000, rc := -1, err := .wantWrite, read := 1999900, poll := .failed .eintr },
    { begun := 2100000, rc := -1, err := .wantRead, read := 3500000, poll := .timeout }]

theorem pump_honours_deadline_interruptedPoll : ∃ s,
    (pumpLoop (5 : Int32).toInt 100 (some 0)).run interruptedPoll = some s ∧
      s.status = some .kTimeout ∧
      s.acts.filterMap PumpAct.timeout? = [3, 3, 1] ∧
      PumpHonours (5 : Int32).toInt 100 (some 0) s := by
  refine ⟨_, rfl, rfl, rfl, ?_⟩
  exact @pump_honours_deadline 5 100 (some 0) interruptedPoll _ rfl

/-! ## Without the clock -/

/-- What a turn of `pump_ssl` comes to, if it is the last one. -/
def SslTry.outcome {α : Type} (timeoutMs : Int) (t : SslTry α) : Option (Outcome α) :=
  match t.result with
  | .done a => some (.moved a)
  | .zeroReturn | .syscall true => some (.stop .kPeerClosed)
  | .syscall false | .failed => some (.stop .kIoError)
  | .want =>
      if 0 ≤ timeoutMs ∧ t.late = true then some (.stop .kTimeout)
      else (polled timeoutMs t.poll).map .stop

theorem pumpSsl_cons {α : Type} (timeoutMs : Int) (t : SslTry α) (tries : List (SslTry α)) :
    pumpSsl timeoutMs (t :: tries) = (t.outcome timeoutMs).or (pumpSsl timeoutMs tries) := by
  simp only [pumpSsl, SslTry.outcome]
  cases t.result with
  | done | zeroReturn | failed => rfl
  | syscall zero => cases zero <;> rfl
  | want =>
      simp only
      split
      next => rfl
      next =>
        cases t.poll with
        | ready => rfl
        | timeout | failed =>
            simp only [polled]
            split <;> rfl

/-- A turn moves something, or it is repeated, or it ends the call. -/
theorem SslTry.outcome_cases {α : Type} (timeoutMs : Int) (t : SslTry α) :
    (∃ a, t.result = .done a ∧ t.outcome timeoutMs = some (.moved a)) ∨
    (t.result = .want ∧ t.outcome timeoutMs = none) ∨
    ∃ status, t.outcome timeoutMs = some (.stop status) := by
  cases hresult : t.result with
  | done a => exact .inl ⟨a, rfl, by rw [SslTry.outcome, hresult]⟩
  | zeroReturn | failed => exact .inr (.inr ⟨_, by rw [SslTry.outcome, hresult]⟩)
  | syscall zero =>
      cases zero with
      | true => exact .inr (.inr ⟨.kPeerClosed, by rw [SslTry.outcome, hresult]⟩)
      | false => exact .inr (.inr ⟨.kIoError, by rw [SslTry.outcome, hresult]⟩)
  | want =>
      simp only [SslTry.outcome, hresult]
      split
      next => exact .inr (.inr ⟨.kTimeout, rfl⟩)
      next =>
        cases polled timeoutMs t.poll with
        | none => exact .inr (.inl ⟨trivial, rfl⟩)
        | some status => exact .inr (.inr ⟨status, rfl⟩)

/-- What the result of `op` is to `pump_ssl`. -/
def PumpTurn.result (t : PumpTurn) : SslResult Int :=
  if 0 < t.rc then .done t.rc
  else
    match t.err with
    | .zeroReturn => .zeroReturn
    | .wantRead | .wantWrite => .want
    | .syscall => .syscall (decide (t.rc = 0))
    | .ssl => .failed

def PumpTurn.untimed (timeoutMs start : Int) (t : PumpTurn) : SslTry Int :=
  { result := t.result, late := decide (pumpDeadline timeoutMs start ≤ t.read), poll := t.poll }

/-- What a call that has returned comes to. -/
def Pump.outcome (s : Pump) : Option (Outcome Int) :=
  match s.status with
  | none => none
  | some .kOk => s.lastRc.map .moved
  | some status => some (.stop status)

section Untimed

variable {timeoutMs start : Int} {out : Option Int} {s s' : Pump} {t : PumpTurn}

theorem Pump.outcome_turn (timeoutMs start : Int) (s : Pump) (t : PumpTurn) :
    (s.turn timeoutMs start t).outcome = (t.untimed timeoutMs start).outcome timeoutMs := by
  have hpolled : ∀ s' : Pump, s'.status = polled timeoutMs t.poll →
      s'.outcome = (polled timeoutMs t.poll).map .stop := by
    intro s' hstatus
    have hok := polled_ne_kOk timeoutMs t.poll
    rw [Pump.outcome, hstatus]
    cases hp : polled timeoutMs t.poll with
    | none => rfl
    | some status =>
        cases status with
        | kOk => exact absurd hp hok
        | kPeerClosed | kTimeout | kProtocolError | kIoError => rfl
  by_cases hrc : 0 < t.rc
  · have hstatus : (s.turn timeoutMs start t).status = some .kOk := by simp [Pump.turn, hrc]
    have hacts : (s.turn timeoutMs start t).acts = s.acts ++ [.op t.begun t.rc] := by
      simp [Pump.turn, hrc]
    rw [Pump.outcome, hstatus]
    simp [Pump.lastRc_append [] hacts nofun, PumpTurn.untimed, PumpTurn.result, SslTry.outcome, hrc]
  · cases herr : t.err with
    | zeroReturn | ssl =>
        simp [Pump.turn, PumpTurn.untimed, PumpTurn.result, SslTry.outcome, Pump.outcome, hrc, herr]
    | syscall =>
        by_cases hzero : t.rc = 0 <;>
          simp [Pump.turn, PumpTurn.untimed, PumpTurn.result, SslTry.outcome, Pump.outcome, hrc,
            herr, hzero]
    | wantRead | wantWrite =>
        simp only [Pump.turn, PumpTurn.untimed, PumpTurn.result, SslTry.outcome, hrc, herr,
          if_false, decide_eq_true_eq]
        by_cases htimed : 0 ≤ timeoutMs
        · by_cases hlate : pumpDeadline timeoutMs start ≤ t.read
          · simp [htimed, hlate, Pump.outcome]
          · simp only [htimed, hlate, if_true, if_false, and_false]
            exact hpolled _ rfl
        · simp only [htimed, if_false, false_and]
          exact hpolled _ rfl

/-- The clock only tells whether the deadline has passed. -/
theorem pumpLoop_untimed {ts : List PumpTurn} (hon : s.status = none)
    (h : (pumpLoop timeoutMs start out).exec s ts = some s') :
    pumpSsl timeoutMs (ts.map (PumpTurn.untimed timeoutMs start)) = s'.outcome := by
  induction ts generalizing s with
  | nil =>
      cases h
      simp [pumpSsl, Pump.outcome, hon]
  | cons t ts ih =>
      obtain ⟨s₁, hstep, hrest⟩ := Machine.exec_cons_iff.mp h
      have hturn : s₁ = s.turn timeoutMs start t := by
        simp only [pumpLoop] at hstep
        split at hstep
        next => exact (Option.some.inj hstep).symm
        next => cases hstep
      rw [List.map_cons, pumpSsl_cons, ← Pump.outcome_turn timeoutMs start s t, ← hturn]
      cases hstatus : s₁.status with
      | none =>
          rw [ih hstatus hrest]
          simp [Pump.outcome, hstatus]
      | some status =>
          -- a call that has returned has no further turn
          cases ts with
          | nil =>
              cases hrest
              simp [pumpSsl]
          | cons t' ts =>
              obtain ⟨s₂, hstep', -⟩ := Machine.exec_cons_iff.mp hrest
              obtain ⟨hnone, -⟩ := pumpLoop_step_cases hstep'
              rw [hstatus] at hnone
              cases hnone

end Untimed

end InferenceRouter.Connection
