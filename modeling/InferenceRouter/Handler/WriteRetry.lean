import InferenceRouter.Connection.Pump
import InferenceRouter.Connection.TlsFraming
import InferenceRouter.Handler.Residue

/-!
# Retries of `SSL_write`

OpenSSL wants a write that was not finished to be made again, with the same buffer and the same
length, unless it is told that the buffer may move.  Here a run of `handle_one` is taken apart
down to the calls of `SSL_write` on the client's `SSL`: where in memory they read, how long they
are and what they return.  The other calls of the handler return what they like.

`pump_ssl` repeats a call as it was.  A call that it gives up on is the last one: the header and
the payload are two calls of `tls_write_exact`, but the second one is not made if the first one
fails, and the handler writes one message to the client in a run (`handleOne_oneWrite`).
-/

namespace InferenceRouter.Handler

open Interleaving Connection

/-! ## A session -/

/-- A call of `SSL_write`. -/
structure SslWrite where
  /-- The address of the buffer. -/
  buf : Nat
  num : Int
  result : SslResult Nat

/-- What happens to the client's `SSL`. -/
inductive SslAct where
  | write (w : SslWrite)
  /-- `write_message` returns. -/
  | returned (status : IoStatus)
  /-- `SSL_free`. -/
  | freed

/-- A call of `write_message` on the client's `Stream`. -/
structure MessageWrite where
  data : List UInt8
  timeoutMs : Int
  /-- The address of `hdr`. -/
  hdr : Nat
  /-- The address of `data`. -/
  buf : Nat
  writing : Writing

/-- `buf + sent`, in the current call of `tls_write_exact`. -/
def MessageWrite.address (c : MessageWrite) : Nat :=
  match c.writing with
  | .header sent => c.hdr + sent
  | .payload sent => c.buf + sent

/-- `need - sent`, as an `int`. -/
def MessageWrite.length (c : MessageWrite) : Int := sslLength (c.writing.need c.data)

/-- A run of the handler, and what it has done to the client's `SSL`. -/
structure Session where
  code : Code Unit
  call : Option MessageWrite := none
  log : List SslAct := []

/-- The message that a call writes to the client's `Stream`, and the timeout. -/
def Op.tlsWrite : Op → Option (List UInt8 × Int)
  | .writeMessage .clientTls data timeoutMs => some (data, timeoutMs)
  | .replyErrorTls msg timeoutMs => some (msg.toUTF8.toList, timeoutMs)
  | _ => none

/-- What such a call returns, when `write_message` returns the status. -/
def Op.wrote (status : IoStatus) : (o : Op) → Option o.Ret
  | .writeMessage .clientTls _ _ => some status
  | .replyErrorTls _ _ => some ()
  | _ => none

/-- `write_message` returns. -/
def Session.finish (s : Session) (status : IoStatus) : Option Session :=
  match s.code with
  | .call o k =>
      (o.wrote status).map (fun r => { code := k r, log := s.log ++ [.returned status] })
  | .pure _ => none

inductive SessionEvent where
  /-- A call other than a message to the client returns. -/
  | answer (o : Op) (r : o.Ret)
  /-- The handler calls `write_message`. -/
  | enter (hdr buf : Nat)
  /-- A turn of `pump_ssl` in it. -/
  | turn (t : SslTry Nat)

def Session.step (s : Session) : SessionEvent → Option Session
  | .answer o r =>
      match s.call, s.code with
      | none, .call o' k =>
          if h : o = o' then
            if o.tlsWrite = none then
              some {
                code := k (h ▸ r)
                log := s.log ++ if o = .closeStream then [.freed] else [] }
            else none
          else none
      | _, _ => none
  | .enter hdr buf =>
      match s.call, s.code.nextCall.bind Op.tlsWrite with
      | none, some (data, timeoutMs) =>
          match Writing.start data with
          | .inl w => some { s with call := some ⟨data, timeoutMs, hdr, buf, w⟩ }
          | .inr status => s.finish status
      | _, _ => none
  | .turn t =>
      match s.call with
      | some c =>
          let log := s.log ++ [.write ⟨c.address, c.length, t.result⟩]
          match t.outcome c.timeoutMs with
          | none => some { s with log := log }
          | some o =>
              match c.writing.turnTls c.data o with
              | some (.inl w) => some { s with call := some { c with writing := w }, log := log }
              | some (.inr status) => Session.finish { s with log := log } status
              | none => none
      | none => none

/-- A run of the handler. -/
def session (p : Code Unit) : Machine Session SessionEvent where
  init := { code := p }
  step := Session.step

/-! ## The rule -/

def SslAct.write? : SslAct → Option SslWrite
  | .write w => some w
  | .returned _ | .freed => none

/-- The calls of `SSL_write`, in their order. -/
def writes (log : List SslAct) : List SslWrite := log.filterMap SslAct.write?

/-- A call that returned `SSL_ERROR_WANT_READ` or `SSL_ERROR_WANT_WRITE` is followed by the same
call, if any. -/
def RetriesAlike (log : List SslAct) : Prop :=
  (writes log).IsChain (fun w w' => w.result = .want → w'.buf = w.buf ∧ w'.num = w.num)

/-- After a message that was given up nothing is written. -/
def QuietAfterFailure (log : List SslAct) : Prop :=
  ∀ before status after, log = before ++ .returned status :: after →
    status = .kTimeout ∨ status = .kIoError → writes after = []

/-- The protocol of a run that writes to the client once. -/
def oneWrite : Protocol Op Op.Ret Bool where
  allowed wrote o := o.tlsWrite.isSome = true → wrote = false
  next wrote o _ := wrote || o.tlsWrite.isSome
  final _ := True

theorem handleOne_oneWrite (v : Overload) (opts : HandlerOptions) :
    (v.handleOne opts).Follows oneWrite false := by
  cases v with
  | pool =>
      simp [Overload.handleOne, handleOnePool, oneWrite, Op.tlsWrite]
  | set =>
      simp [Overload.handleOne, handleOneSet, oneWrite, Op.tlsWrite]

section Log

variable {log more : List SslAct}

theorem writes_append (log more : List SslAct) :
    writes (log ++ more) = writes log ++ writes more := List.filterMap_append

theorem RetriesAlike.silent (h : RetriesAlike log) (hmore : writes more = []) :
    RetriesAlike (log ++ more) := by
  rwa [RetriesAlike, writes_append, hmore, List.append_nil]

theorem RetriesAlike.write (h : RetriesAlike log) {buf : Nat} {num : Int} {result : SslResult Nat}
    (hlast : ∀ x ∈ (writes log).getLast?, x.result = .want → buf = x.buf ∧ num = x.num) :
    RetriesAlike (log ++ [.write ⟨buf, num, result⟩]) := by
  rw [RetriesAlike, writes_append, List.isChain_append]
  refine ⟨h, .singleton _, ?_⟩
  rintro x hx y hy
  cases hy
  exact hlast x hx

/-- No message has been written yet. -/
def NoneReturned (log : List SslAct) : Prop := ∀ status, .returned status ∉ log

theorem NoneReturned.append (h : NoneReturned log) (h' : NoneReturned more) :
    NoneReturned (log ++ more) := by
  intro status hmem
  rcases List.mem_append.mp hmem with hold | hnew
  · exact h status hold
  · exact h' status hnew

theorem noneReturned_write (w : SslWrite) : NoneReturned [.write w] := by simp [NoneReturned]

theorem NoneReturned.quiet (h : NoneReturned log) : QuietAfterFailure log := by
  rintro before status after rfl -
  exact absurd (List.mem_append_right _ List.mem_cons_self) (h status)

theorem QuietAfterFailure.silent (h : QuietAfterFailure log) (hmore : writes more = []) :
    QuietAfterFailure (log ++ more) := by
  intro before status after hsplit hfailed
  rcases List.append_eq_append_iff.mp hsplit with ⟨mid, -, hlater⟩ | ⟨mid, hearlier, hrest⟩
  · rw [hlater, writes_append] at hmore
    exact (List.append_eq_nil_iff.mp hmore).2
  · cases mid with
    | nil =>
        rw [List.nil_append] at hrest
        rw [← hrest] at hmore
        exact hmore
    | cons a mid =>
        rw [List.cons_append] at hrest
        obtain ⟨rfl, rfl⟩ := List.cons.inj hrest
        rw [writes_append, h before status mid hearlier hfailed, hmore]
        rfl

end Log

/-! ## Steps -/

/-- What a step can do. -/
inductive SessionStep (s : Session) : Session → Prop where
  | answer {o : Op} {k : o.Ret → Code Unit} {r : o.Ret} {more : List SslAct}
      (hcall : s.call = none) (hcode : s.code = .call o k) (hwrite : o.tlsWrite = none)
      (hmore : more = [.freed] ∨ more = []) :
      SessionStep s { code := k r, log := s.log ++ more }
  | enter {o : Op} {k : o.Ret → Code Unit} {c : MessageWrite} (hcall : s.call = none)
      (hcode : s.code = .call o k) (hwrite : o.tlsWrite.isSome = true) :
      SessionStep s { s with call := some c }
  /-- The message is too long. -/
  | refused {o : Op} {k : o.Ret → Code Unit} {r : o.Ret} {status : IoStatus}
      (hcall : s.call = none) (hcode : s.code = .call o k) (hwrite : o.tlsWrite.isSome = true) :
      SessionStep s { code := k r, log := s.log ++ [.returned status] }
  | retry {c : MessageWrite} (hcall : s.call = some c) :
      SessionStep s { s with log := s.log ++ [.write ⟨c.address, c.length, .want⟩] }
  | moved {c : MessageWrite} {w : Writing} {n : Nat} (hcall : s.call = some c) :
      SessionStep s { s with
        call := some { c with writing := w }
        log := s.log ++ [.write ⟨c.address, c.length, .done n⟩] }
  | wrote {c : MessageWrite} {result : SslResult Nat} {o : Op} {k : o.Ret → Code Unit} {r : o.Ret}
      {status : IoStatus} (hcall : s.call = some c) (hcode : s.code = .call o k) :
      SessionStep s {
        code := k r
        log := s.log ++ [.write ⟨c.address, c.length, result⟩] ++ [.returned status] }

theorem Session.finish_cases {s s' : Session} {status : IoStatus}
    (h : s.finish status = some s') :
    ∃ (o : Op) (k : o.Ret → Code Unit) (r : o.Ret), s.code = .call o k ∧
      s' = { code := k r, log := s.log ++ [.returned status] } := by
  simp only [Session.finish] at h
  split at h
  next o k hcode =>
    obtain ⟨r, -, rfl⟩ := Option.map_eq_some_iff.mp h
    exact ⟨o, k, r, hcode, rfl⟩
  next => cases h

theorem Session.step_cases {s s' : Session} {e : SessionEvent} (h : s.step e = some s') :
    SessionStep s s' := by
  cases e with
  | answer o r =>
      simp only [Session.step] at h
      split at h
      next o' k hcall hcode =>
        split at h
        next heq =>
          subst heq
          split at h
          next hwrite =>
            cases h
            refine .answer hcall hcode hwrite ?_
            split
            next => exact .inl rfl
            next => exact .inr rfl
          next => cases h
        next => cases h
      next => cases h
  | enter hdr buf =>
      simp only [Session.step] at h
      split at h
      next data timeoutMs hcall hnext =>
        obtain ⟨o, ho, hwrite⟩ := Option.bind_eq_some_iff.mp hnext
        obtain ⟨k, hcode⟩ := Prog.nextCall_eq_some.mp ho
        have hsome : o.tlsWrite.isSome = true := by rw [hwrite]; rfl
        split at h
        next w hstart =>
          cases h
          exact .enter hcall hcode hsome
        next status hstart =>
          obtain ⟨o', k', r, hcode', rfl⟩ := Session.finish_cases h
          rw [hcode] at hcode'
          cases hcode'
          exact .refused hcall hcode hsome
      next => cases h
  | turn t =>
      simp only [Session.step] at h
      split at h
      next c hcall =>
        rcases SslTry.outcome_cases c.timeoutMs t with
          ⟨n, hdone, hout⟩ | ⟨hwant, hout⟩ | ⟨status, hout⟩
        · simp only [hout, hdone] at h
          split at h
          next w hturn =>
            cases h
            exact .moved hcall
          next status hturn =>
            obtain ⟨o, k, r, hcode, rfl⟩ := Session.finish_cases h
            exact .wrote hcall hcode
          next => cases h
        · simp only [hout, hwant] at h
          cases h
          exact .retry hcall
        · simp only [hout, Writing.turnTls] at h
          obtain ⟨o, k, r, hcode, rfl⟩ := Session.finish_cases h
          exact .wrote hcall hcode
      next => cases h

/-! ## Runs -/

/-- Where a run is.  A run that has not begun to write has written nothing; one that writes is
about to repeat its last call, if that is wanted. -/
def Session.Staged (s : Session) : Prop :=
  match s.call with
  | none => ∃ wrote, s.code.Follows oneWrite wrote ∧
      (wrote = false → writes s.log = [] ∧ NoneReturned s.log)
  | some c => (∀ o k, s.code = .call o k → ∀ r, (k r).Follows oneWrite true) ∧
      NoneReturned s.log ∧ ∀ x ∈ (writes s.log).getLast?, x.result = .want →
        c.address = x.buf ∧ c.length = x.num

structure Session.Sound (s : Session) : Prop where
  retries : RetriesAlike s.log
  quiet : QuietAfterFailure s.log
  staged : s.Staged

theorem getLast?_writes (log : List SslAct) (w : SslWrite) :
    (writes (log ++ [.write w])).getLast? = some w := by
  rw [writes_append]
  exact List.getLast?_concat

theorem Session.Sound.step {s s' : Session} (hstep : SessionStep s s') (h : s.Sound) :
    s'.Sound := by
  obtain ⟨hretries, hquiet, hstaged⟩ := h
  cases hstep with
  | @answer o k r more hcall hcode hwrite hmore =>
      simp only [Session.Staged, hcall, hcode, Prog.follows_call] at hstaged
      obtain ⟨wrote, ⟨-, hrest⟩, hnothing⟩ := hstaged
      have hsilent : writes more = [] := by rcases hmore with rfl | rfl <;> rfl
      have hreturns : NoneReturned more := by rcases hmore with rfl | rfl <;> simp [NoneReturned]
      refine ⟨hretries.silent hsilent, hquiet.silent hsilent, wrote, ?_, ?_⟩
      · simpa [oneWrite, hwrite] using hrest r
      · intro hfalse
        obtain ⟨hnone, hreturned⟩ := hnothing hfalse
        rw [writes_append, hnone, hsilent]
        exact ⟨rfl, hreturned.append hreturns⟩
  | @enter o k c hcall hcode hwrite =>
      simp only [Session.Staged, hcall, hcode, Prog.follows_call] at hstaged
      obtain ⟨wrote, ⟨hallowed, hrest⟩, hnothing⟩ := hstaged
      obtain ⟨hnone, hreturned⟩ := hnothing (hallowed hwrite)
      refine ⟨hretries, hquiet, ?_, hreturned, ?_⟩
      · rintro o' k' hcode' r
        rw [hcode] at hcode'
        cases hcode'
        simpa [oneWrite, hwrite] using hrest r
      · simp [hnone]
  | @refused o k r status hcall hcode hwrite =>
      simp only [Session.Staged, hcall, hcode, Prog.follows_call] at hstaged
      obtain ⟨wrote, ⟨-, hrest⟩, -⟩ := hstaged
      refine ⟨hretries.silent rfl, hquiet.silent rfl, true, ?_, by simp⟩
      simpa [oneWrite, hwrite] using hrest r
  | @retry c hcall =>
      simp only [Session.Staged, hcall] at hstaged
      obtain ⟨hrest, hreturned, hlast⟩ := hstaged
      have hreturned' := hreturned.append (noneReturned_write ⟨c.address, c.length, .want⟩)
      refine ⟨hretries.write hlast, hreturned'.quiet, ?_⟩
      simp only [Session.Staged, hcall, getLast?_writes]
      refine ⟨hrest, hreturned', ?_⟩
      rintro x hx -
      rw [← Option.some.inj hx]
      simp only [and_self]
  | @moved c w n hcall =>
      simp only [Session.Staged, hcall] at hstaged
      obtain ⟨hrest, hreturned, hlast⟩ := hstaged
      have hreturned' := hreturned.append (noneReturned_write ⟨c.address, c.length, .done n⟩)
      refine ⟨hretries.write hlast, hreturned'.quiet, hrest, hreturned', ?_⟩
      rw [getLast?_writes]
      rintro x ⟨⟩ hwant
      cases hwant
  | @wrote c result o k r status hcall hcode =>
      simp only [Session.Staged, hcall] at hstaged
      obtain ⟨hrest, hreturned, hlast⟩ := hstaged
      have hreturned' := hreturned.append (noneReturned_write ⟨c.address, c.length, result⟩)
      exact ⟨(hretries.write hlast).silent rfl, hreturned'.quiet.silent rfl, true,
        hrest o k hcode r, by simp⟩

theorem write_retry_rule (v : Overload) (opts : HandlerOptions) {es : List SessionEvent}
    {s : Session} (h : (session (v.handleOne opts)).run es = some s) :
    RetriesAlike s.log ∧ QuietAfterFailure s.log := by
  have hinit : (session (v.handleOne opts)).init.Sound :=
    ⟨.nil, fun _ _ _ hsplit => by simp [session] at hsplit, false, handleOne_oneWrite v opts,
      fun _ => ⟨rfl, by simp [session, NoneReturned]⟩⟩
  have hsound : s.Sound := Machine.exec_invariant
    (fun _ _ _ hs hstep => hs.step (Session.step_cases hstep)) hinit h
  exact ⟨hsound.retries, hsound.quiet⟩

/-- A response of two bytes: the first one goes at the second try, and the deadline passes before
the other one does. -/
def backPressure : List SessionEvent :=
  [.answer .incInFlight (), .answer (.acceptHandshake 5000) true,
    .answer (.readMessage .clientTls (16 * 1024 * 1024) 5000) (.kOk, [1]),
    .answer .setBorrow { fd := 7 }, .answer (.writeMessage (.backend 7) [1] 5000) .kOk,
    .answer (.readMessage (.backend 7) (16 * 1024 * 1024) 5000) (.kOk, [8, 9]),
    .enter 100 200, .turn { result := .done 4 }, .turn { result := .want },
    .turn { result := .done 1 }, .turn { result := .want },
    .turn { result := .want, late := true }, .answer (.setRelease { fd := 7 } true) (),
    .answer .incErrored (), .answer .closeStream (), .answer .decInFlight ()]

theorem write_retry_rule_backPressure : ∃ s,
    (session (Overload.set.handleOne { serverTls := true })).run backPressure = some s ∧
      s.log = [.write ⟨100, 4, .done 4⟩, .write ⟨200, 2, .want⟩, .write ⟨200, 2, .done 1⟩,
        .write ⟨201, 1, .want⟩, .write ⟨201, 1, .want⟩, .returned .kTimeout, .freed] ∧
      RetriesAlike s.log ∧ QuietAfterFailure s.log := by
  refine ⟨_, rfl, rfl, ?_⟩
  exact @write_retry_rule .set { serverTls := true } backPressure _ rfl

end InferenceRouter.Handler
