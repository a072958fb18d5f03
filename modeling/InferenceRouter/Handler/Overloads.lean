import InferenceRouter.Handler.Settled
import InferenceRouter.BackendSet.Calls

/-!
# The four bodies do the same

`Lockstep` says that each call of one body agrees with the call that stands in its place
in another body.  Then the bodies agree (`Lockstep.serve_agrees`).  It holds in two ways.

*A set of one backend.*  The pick can only return that backend.  The counters change, and
nobody reads anything from them.

*TLS.*  A turn of the plaintext loops may say `again`, and `pump_ssl` repeats inside a
turn.  The calls return the same when the turns are the same apart from those.
-/

namespace InferenceRouter.Handler

open Interleaving Connection

/-! ## Lockstep -/

section Lockstep

variable {β γ : Type}

/-- Each call of the body with `t` and `l` agrees with the call of the other body.  `P`
is what is known of the handles. -/
structure Lockstep (f : Act → List Act) (R : World β → World γ → Prop) (L : Lender β)
    (L' : Lender γ) (opts : HandlerOptions) (t : Transport) (l : Lending) (t' : Transport)
    (l' : Lending) (P : Handle → Prop) : Prop where
  read : Prog.Agrees f R (World.answer L) (World.answer L')
    (readMessage t.peer opts.maxPayload opts.clientIoTimeoutMs)
    (readMessage t'.peer opts.maxPayload opts.clientIoTimeoutMs)
  write : ∀ data, Prog.Agrees f R (World.answer L) (World.answer L')
    (writeMessage t.peer data opts.clientIoTimeoutMs)
    (writeMessage t'.peer data opts.clientIoTimeoutMs)
  reply : ∀ msg, Prog.Agrees f R (World.answer L) (World.answer L')
    (t.reply msg opts.clientIoTimeoutMs) (t'.reply msg opts.clientIoTimeoutMs)
  backendRead : ∀ fd, Prog.Agrees f R (World.answer L) (World.answer L')
    (readMessage (.backend fd) opts.maxPayload opts.backendIoTimeoutMs)
    (readMessage (.backend fd) opts.maxPayload opts.backendIoTimeoutMs)
  backendWrite : ∀ fd data, Prog.Agrees f R (World.answer L) (World.answer L')
    (writeMessage (.backend fd) data opts.backendIoTimeoutMs)
    (writeMessage (.backend fd) data opts.backendIoTimeoutMs)
  borrow : Prog.Agrees f R (World.answer L) (World.answer L') l.borrow l'.borrow
  lent : ∀ h, (∃ w acts w', l.borrow.run (World.answer L) w = some (h, acts, w')) → P h
  release : ∀ h ok, P h → 0 ≤ h.fd →
    Prog.Agrees f R (World.answer L) (World.answer L') (l.release h ok) (l'.release h ok)
  close : Prog.Agrees f R (World.answer L) (World.answer L') t.close t'.close
  errored : Prog.Agrees f R (World.answer L) (World.answer L') incErrored incErrored
  completed : Prog.Agrees f R (World.answer L) (World.answer L') incCompleted incCompleted
  left : Prog.Agrees f R (World.answer L) (World.answer L') decInFlight decInFlight

variable {f : Act → List Act} {R : World β → World γ → Prop} {L : Lender β} {L' : Lender γ}
  {opts : HandlerOptions} {t t' : Transport} {l l' : Lending} {P : Handle → Prop}

theorem Lockstep.fails (h : Lockstep f R L L' opts t l t' l' P) :
    Prog.Agrees f R (World.answer L) (World.answer L') (fail t) (fail t') :=
  h.errored.bind fun _ _ => h.close.bind fun _ _ => h.left

theorem Lockstep.exchange_agrees (h : Lockstep f R L L' opts t l t' l' P) {handle : Handle}
    (hP : P handle) (hfd : 0 ≤ handle.fd) (req : List UInt8) :
    Prog.Agrees f R (World.answer L) (World.answer L')
      (exchange t l opts handle req) (exchange t' l' opts handle req) := by
  refine (h.backendWrite _ _).bind fun wr _ => ?_
  split
  next =>
    exact (h.reply _).bind fun _ _ => (h.release _ _ hP hfd).bind fun _ _ => h.fails
  next =>
    refine (h.backendRead _).bind fun ⟨rr, resp⟩ _ => ?_
    simp only
    split
    next =>
      exact (h.reply _).bind fun _ _ => (h.release _ _ hP hfd).bind fun _ _ => h.fails
    next =>
      refine (h.write _).bind fun cw _ => (h.release _ _ hP hfd).bind fun _ _ => ?_
      split
      next => exact h.fails
      next => exact h.completed.bind fun _ _ => h.close.bind fun _ _ => h.left

theorem Lockstep.serve_agrees (h : Lockstep f R L L' opts t l t' l' P) :
    Prog.Agrees f R (World.answer L) (World.answer L') (serve t l opts) (serve t' l' opts) := by
  refine h.read.bind fun ⟨r, req⟩ _ => ?_
  simp only
  split
  next => exact h.fails
  next =>
    refine h.borrow.bind fun handle hhandle => ?_
    split
    next => exact (h.reply _).bind fun _ _ => h.fails
    next hfd => exact h.exchange_agrees (h.lent handle hhandle) (Int.not_lt.mp hfd) req

end Lockstep

/-! ## A set of one backend -/

section OneBackend

open BackendSet (PoolCalls Members Config)

variable {π β γ : Type}

/-- `BackendPool::borrow` and `release`, as a handler calls them. -/
def poolLender (P : PoolCalls π) : Lender π where
  borrow p :=
    match P.borrow p with
    | none => none
    | some (none, p') => some ({ fd := -1 }, p')
    | some (some fd, p') => some ({ fd := fd }, p')
  release p h ok := P.release p h.fd.toNat ok

def setLender (P : PoolCalls π) (cfg : Config) : Lender (Members π) where
  borrow s := s.borrow P cfg
  release s h ok := s.release P h ok

/-- The same answers, and another lender. -/
def World.withLender (w : World β) (b : γ) : World γ where
  handshakes := w.handshakes
  reads := w.reads
  writes := w.writes
  backendReads := w.backendReads
  backendWrites := w.backendWrites
  lender := b

/-- The set has one pool, and that is the pool of the first world. -/
def OneBackend (w : World π) (w' : World (Members π)) : Prop :=
  ∃ s, s.pools = [w.lender] ∧ w' = w.withLender s

/-- Calls that the lender has no part in. -/
theorem OneBackend.agree {α : Type} {w : World π} {s : Members π} (hs : s.pools = [w.lender])
    {x : Option (α × List Act × World π)} {x' : Option (α × List Act × World (Members π))}
    (hx : ∀ a acts w₁, x = some (a, acts, w₁) → w₁.lender = w.lender)
    (hx' : x' = x.map (fun r => (r.1, r.2.1, r.2.2.withLender s))) :
    Prog.Agree (fun a => [a]) OneBackend x x' := by
  cases x with
  | none =>
      rw [hx']
      exact .neither
  | some r =>
      obtain ⟨a, acts, w₁⟩ := r
      have hR : OneBackend w₁ (w₁.withLender s) := ⟨s, by rw [hx a acts w₁ rfl, hs], rfl⟩
      rw [hx']
      exact .of_eq (List.flatMap_singleton' acts) hR

theorem World.readMessage_withLender (w : World β) (b : γ) (peer : Peer) (maxPayload : Nat)
    (timeoutMs : Int) :
    (w.withLender b).readMessage peer maxPayload timeoutMs =
      (w.readMessage peer maxPayload timeoutMs).map
        (fun r => (r.1, r.2.1, r.2.2.withLender b)) := by
  obtain ⟨handshakes, reads, writes, backendReads, backendWrites, lender⟩ := w
  simp only [World.readMessage, World.withLender]
  repeat' split
  all_goals simp_all

theorem World.writeMessage_withLender (w : World β) (b : γ) (peer : Peer) (data : List UInt8)
    (timeoutMs : Int) :
    (w.withLender b).writeMessage peer data timeoutMs =
      (w.writeMessage peer data timeoutMs).map (fun r => (r.1, r.2.1, r.2.2.withLender b)) := by
  obtain ⟨handshakes, reads, writes, backendReads, backendWrites, lender⟩ := w
  simp only [World.writeMessage, World.withLender]
  repeat' split
  all_goals simp_all

theorem World.readMessage_lender {w w₁ : World β} {peer : Peer} {maxPayload : Nat} {timeoutMs : Int}
    {result : IoStatus × List UInt8} {acts : List Act}
    (h : w.readMessage peer maxPayload timeoutMs = some (result, acts, w₁)) :
    w₁.lender = w.lender := by
  simp only [World.readMessage] at h
  repeat' split at h
  all_goals cases h
  all_goals rfl

theorem World.writeMessage_lender {w w₁ : World β} {peer : Peer} {data : List UInt8}
    {timeoutMs : Int} {status : IoStatus} {acts : List Act}
    (h : w.writeMessage peer data timeoutMs = some (status, acts, w₁)) : w₁.lender = w.lender := by
  simp only [World.writeMessage] at h
  repeat' split at h
  all_goals cases h
  all_goals rfl

theorem World.replyError_lender {w w₁ : World β} {peer : Peer} {msg : String} {timeoutMs : Int}
    {r : Unit} {acts : List Act} (h : w.replyError peer msg timeoutMs = some (r, acts, w₁)) :
    w₁.lender = w.lender := by
  simp only [World.replyError] at h
  split at h
  next hwrite =>
    cases h
    exact World.writeMessage_lender hwrite
  next => cases h

variable {P : PoolCalls π} {cfg : Config}

theorem OneBackend.read_agrees (peer : Peer) (maxPayload : Nat) (timeoutMs : Int) :
    Prog.Agrees (fun a => [a]) OneBackend (World.answer (poolLender P))
      (World.answer (setLender P cfg)) (readMessage peer maxPayload timeoutMs)
      (readMessage peer maxPayload timeoutMs) := by
  rintro w _ ⟨s, hs, rfl⟩
  rw [readMessage, Prog.run_perform, Prog.run_perform]
  exact OneBackend.agree hs (fun _ _ _ => World.readMessage_lender)
    (World.readMessage_withLender w s peer maxPayload timeoutMs)

theorem OneBackend.write_agrees (peer : Peer) (data : List UInt8) (timeoutMs : Int) :
    Prog.Agrees (fun a => [a]) OneBackend (World.answer (poolLender P))
      (World.answer (setLender P cfg)) (writeMessage peer data timeoutMs)
      (writeMessage peer data timeoutMs) := by
  rintro w _ ⟨s, hs, rfl⟩
  rw [writeMessage, Prog.run_perform, Prog.run_perform]
  exact OneBackend.agree hs (fun _ _ _ => World.writeMessage_lender)
    (World.writeMessage_withLender w s peer data timeoutMs)

/-- The reply is the write, without its status. -/
theorem OneBackend.replyError_agree {w : World π} {s : Members π} (hs : s.pools = [w.lender])
    (peer : Peer) (msg : String) (timeoutMs : Int) :
    Prog.Agree (fun a => [a]) OneBackend (w.replyError peer msg timeoutMs)
      ((w.withLender s).replyError peer msg timeoutMs) := by
  refine OneBackend.agree hs ?_ ?_
  · intro a acts w₁ h
    exact World.replyError_lender h
  · simp only [World.replyError, World.writeMessage_withLender]
    cases w.writeMessage peer msg.toUTF8.toList timeoutMs <;> rfl

/-- The calls that do nothing but one act. -/
theorem OneBackend.act_agrees {o : Op} {r : Op.Ret o} {acts : List Act}
    (h : ∀ {β : Type} (L : Lender β) (w : World β), World.answer L o w = some (r, acts, w)) :
    Prog.Agrees (fun a => [a]) OneBackend (World.answer (poolLender P))
      (World.answer (setLender P cfg)) (Prog.perform o) (Prog.perform o) := by
  rintro w _ ⟨s, hs, rfl⟩
  rw [Prog.run_perform, Prog.run_perform, h, h]
  refine OneBackend.agree hs ?_ rfl
  rintro a acts w₁ ⟨⟩
  rfl

/-- The pick of a set of one backend. -/
theorem pickLowestLoad_single {s : Members π} {p : π} (hs : s.pools = [p]) :
    s.pickLowestLoad cfg = 0 := by
  rw [Members.pickLowestLoad, hs]
  rfl

/-- `borrow` of a set of one backend is `borrow` of its pool, up to the counters. -/
theorem setLender_borrow {s : Members π} {p : π} (hs : s.pools = [p]) :
    ((poolLender P).borrow p = none ∧ (setLender P cfg).borrow s = none) ∨
    ∃ h p' s', h.poolIndex = 0 ∧ (poolLender P).borrow p = some (h, p') ∧
      (setLender P cfg).borrow s = some (h, s') ∧ s'.pools = [p'] := by
  simp only [poolLender, setLender, Members.borrow, pickLowestLoad_single hs]
  rw [hs]
  simp only [List.getElem?_cons_zero]
  cases P.borrow p with
  | none => exact .inl ⟨rfl, rfl⟩
  | some r =>
      obtain ⟨fd, p'⟩ := r
      cases fd with
      | none => exact .inr ⟨_, p', _, rfl, rfl, rfl, rfl⟩
      | some fd => exact .inr ⟨_, p', _, rfl, rfl, rfl, rfl⟩

theorem setLender_release {s : Members π} {p : π} (hs : s.pools = [p]) {h : Handle}
    (hh : h.poolIndex = 0) (hfd : 0 ≤ h.fd) (ok : Bool) :
    ((poolLender P).release p h ok = none ∧ (setLender P cfg).release s h ok = none) ∨
    ∃ p' s', (poolLender P).release p h ok = some p' ∧
      (setLender P cfg).release s h ok = some s' ∧ s'.pools = [p'] := by
  simp only [poolLender, setLender, Members.release, hh, hs, Int.not_lt.mpr hfd, if_false,
    List.getElem?_cons_zero]
  cases P.release p h.fd.toNat ok with
  | none => exact .inl ⟨rfl, rfl⟩
  | some p' => exact .inr ⟨p', _, rfl, rfl, rfl⟩

theorem OneBackend.borrow_agrees :
    Prog.Agrees (fun a => [a]) OneBackend (World.answer (poolLender P))
      (World.answer (setLender P cfg)) Lending.pool.borrow Lending.set.borrow := by
  rintro w _ ⟨s, hs, rfl⟩
  have hs' : (w.withLender s).lender.pools = [w.lender] := hs
  simp only [Lending.pool, Lending.set, poolBorrow, setBorrow, Prog.run_bind, Prog.run_perform,
    World.answer, World.poolBorrow, World.setBorrow]
  rcases @setLender_borrow _ P cfg _ _ hs' with
    ⟨hpool, hset⟩ | ⟨h, p', s', hh, hpool, hset, hs₁⟩
  · rw [hpool, hset]
    exact .neither
  · rw [hpool, hset]
    obtain ⟨fd, index⟩ := h
    cases hh
    exact .both ⟨s', hs₁, rfl⟩

theorem OneBackend.release_agrees {h : Handle} (hh : h.poolIndex = 0) (hfd : 0 ≤ h.fd) (ok : Bool) :
    Prog.Agrees (fun a => [a]) OneBackend (World.answer (poolLender P))
      (World.answer (setLender P cfg)) (Lending.pool.release h ok) (Lending.set.release h ok) := by
  rintro w _ ⟨s, hs, rfl⟩
  have hs' : (w.withLender s).lender.pools = [w.lender] := hs
  obtain ⟨fd, index⟩ := h
  cases hh
  simp only [Lending.pool, Lending.set, poolRelease, setRelease, Prog.run_perform,
    World.answer, World.release]
  rcases @setLender_release _ P cfg _ _ hs' { fd := fd } rfl hfd ok with
    ⟨hpool, hset⟩ | ⟨p', s', hpool, hset, hs₁⟩
  · rw [hpool, hset]
    exact .neither
  · rw [hpool, hset]
    exact .both ⟨s', hs₁, rfl⟩

theorem OneBackend.lockstep (opts : HandlerOptions) (t : Transport)
    (ht : t = .plain ∨ t = .tls) :
    Lockstep (fun a => [a]) OneBackend (poolLender P) (setLender P cfg) opts t .pool t .set
      (fun h => h.poolIndex = 0) where
  read := OneBackend.read_agrees _ _ _
  write _ := OneBackend.write_agrees _ _ _
  reply msg := by
    rintro w _ ⟨s, hs, rfl⟩
    rcases ht with rfl | rfl
    · simp only [Transport.plain, replyErrorPlain, Prog.run_perform]
      exact OneBackend.replyError_agree hs _ _ _
    · simp only [Transport.tls, replyErrorTls, Prog.run_perform]
      exact OneBackend.replyError_agree hs _ _ _
  backendRead _ := OneBackend.read_agrees _ _ _
  backendWrite _ _ := OneBackend.write_agrees _ _ _
  borrow := OneBackend.borrow_agrees
  lent h := by
    rintro ⟨w, acts, w', hrun⟩
    exact ((Lending.pool_sound (poolLender P)).borrow w h acts w' hrun).1
  release h ok hh hfd := OneBackend.release_agrees hh hfd ok
  close := by
    rcases ht with rfl | rfl
    · exact OneBackend.act_agrees (fun _ _ => rfl)
    · exact OneBackend.act_agrees (fun _ _ => rfl)
  errored := OneBackend.act_agrees (fun _ _ => rfl)
  completed := OneBackend.act_agrees (fun _ _ => rfl)
  left := OneBackend.act_agrees (fun _ _ => rfl)

theorem OneBackend.handshake_agrees (timeoutMs : Int) :
    Prog.Agrees (fun a => [a]) OneBackend (World.answer (poolLender P))
      (World.answer (setLender P cfg)) (acceptHandshake timeoutMs) (acceptHandshake timeoutMs) := by
  rintro w _ ⟨s, hs, rfl⟩
  rw [acceptHandshake, Prog.run_perform, Prog.run_perform]
  refine OneBackend.agree hs ?_ ?_
  · intro a acts w₁ h
    simp only [World.answer, World.acceptHandshake] at h
    repeat' split at h
    all_goals cases h
    all_goals rfl
  · simp only [World.answer, World.acceptHandshake, World.withLender]
    repeat' split
    all_goals simp_all

/-- The two overloads, over a pool and over the set that has only that pool. -/
theorem OneBackend.handleOne_agrees (opts : HandlerOptions) :
    Prog.Agrees (fun a => [a]) OneBackend (World.answer (poolLender P))
      (World.answer (setLender P cfg)) (handleOnePool opts) (handleOneSet opts) := by
  rw [handleOnePool_eq, handleOneSet_eq]
  refine (OneBackend.act_agrees (fun _ _ => rfl)).bind fun _ _ => ?_
  split
  next => exact (OneBackend.lockstep opts .plain (.inl rfl)).serve_agrees
  next =>
    refine (OneBackend.handshake_agrees _).bind fun ok _ => ?_
    split
    next =>
      exact (OneBackend.act_agrees (fun _ _ => rfl)).bind fun _ _ =>
        OneBackend.act_agrees (fun _ _ => rfl)
    next => exact (OneBackend.lockstep opts .tls (.inr rfl)).serve_agrees

end OneBackend

/-! ## TLS and plaintext -/

section OverTls

variable {β : Type} {maxPayload : Nat} {timeoutMs : Int}

/-- The turns in which a read gets something. -/
def heard : Option (Outcome (List UInt8)) → Bool
  | some .again => false
  | _ => true

/-- The turns in which a write gets something done. -/
def pushed : Option (Outcome Nat) → Bool
  | some .again | some (.moved 0) => false
  | _ => true

theorem loop_again (r : Reading) (turns : List (Option (Outcome (List UInt8)))) :
    r.loop maxPayload (some .again :: turns) = r.loop maxPayload turns := by
  simp only [Reading.loop, Reading.turn, Outcome.chunk, if_true, List.nil_append]
  cases r.loop maxPayload turns <;> rfl

/-- A read returns the same without the turns in which it got nothing. -/
theorem loop_heard (r : Reading) (turns : List (Option (Outcome (List UInt8)))) :
    r.loop maxPayload (turns.filter heard) = r.loop maxPayload turns := by
  induction turns generalizing r with
  | nil => rfl
  | cons turn turns ih =>
      cases turn with
      | none => rfl
      | some o =>
          cases o with
          | again =>
              rw [loop_again, ← ih]
              rfl
          | moved chunk =>
              rw [List.filter_cons_of_pos rfl]
              simp only [Reading.loop, ih]
          | stop status =>
              rw [List.filter_cons_of_pos rfl]
              simp only [Reading.loop, ih]

theorem send_zero {data : List UInt8} {w : Writing} (h : w.Valid data) :
    w.send data 0 = .inl w := by
  cases w with
  | header sent =>
      have hsent : sent < 4 := h
      simp [Writing.send, hsent]
  | payload sent =>
      have hsent : sent < data.length := h
      simp [Writing.send, hsent]

theorem loop_idle {data : List UInt8} {w : Writing} (h : w.Valid data)
    (turns : List (Option (Outcome Nat))) {o : Outcome Nat} (ho : pushed (some o) = false) :
    w.loop data (some o :: turns) = w.loop data turns := by
  have hidle : w.turn data o = some (.inl w) ∧ w.handed data o = [] := by
    cases o with
    | again => exact ⟨rfl, rfl⟩
    | moved n =>
        cases n with
        | zero =>
            refine ⟨?_, ?_⟩
            · simp [Writing.turn, send_zero h]
            · cases w <;> simp [Writing.handed, Writing.chunk]
        | succ n => cases ho
    | stop status => cases ho
  simp only [Writing.loop, hidle.1, hidle.2, if_true, List.nil_append]
  cases w.loop data turns <;> rfl

/-- A write returns the same without the turns in which it got nothing done. -/
theorem loop_pushed {data : List UInt8} {w : Writing} (h : w.Valid data)
    (turns : List (Option (Outcome Nat))) :
    w.loop data (turns.filter pushed) = w.loop data turns := by
  induction turns generalizing w with
  | nil => rfl
  | cons turn turns ih =>
      cases turn with
      | none => rfl
      | some o =>
          cases ho : pushed (some o) with
          | false => rw [List.filter_cons_of_neg (by simp [ho]), loop_idle h turns ho, ih h]
          | true =>
              rw [List.filter_cons_of_pos ho]
              simp only [Writing.loop]
              cases hturn : w.turn data o with
              | none => rfl
              | some call =>
                  cases call with
                  | inr status => rfl
                  | inl w' => simp only [ih (Writing.turn_more h hturn).1]

theorem writeCall_pushed (data : List UInt8) (turns : List (Option (Outcome Nat))) :
    writeCall data (turns.filter pushed) = writeCall data turns := by
  simp only [writeCall]
  split
  next => rfl
  next w hstart => exact loop_pushed (Writing.valid_start hstart).1 turns

/-- Two calls of `read_message`, the second one through TLS, that get the same chunks and
statuses. -/
structure SameRead (timeoutMs : Int) (c c' : ClientRead) : Prop where
  plain : c.peer = .client
  tls : c'.peer = .clientTls
  heard : (c.outcomes timeoutMs).filter heard = (c'.outcomes timeoutMs).filter heard

structure SameWrite (timeoutMs : Int) (c c' : ClientWrite) : Prop where
  plain : c.peer = .client
  tls : c'.peer = .clientTls
  pushed : (c.outcomes timeoutMs).filter pushed = (c'.outcomes timeoutMs).filter pushed

/-- The second world is the first one behind a TLS layer. -/
structure OverTls (timeoutMs : Int) (w w' : World β) : Prop where
  reads : List.Forall₂ (SameRead timeoutMs) w.reads w'.reads
  writes : List.Forall₂ (SameWrite timeoutMs) w.writes w'.writes
  backendReads : w.backendReads = w'.backendReads
  backendWrites : w.backendWrites = w'.backendWrites
  lender : w.lender = w'.lender

/-- What a body does over TLS in place of an act: the handshake comes after the entry, and
`close_stream` in place of `safe_close`. -/
def actOverTls (handshake : List TlsCall) : Act → List Act
  | .counted .incInFlight => .counted .incInFlight :: handshake.map .tls
  | .closed => [.tls .shutdown, .tls .free, .closed]
  | a => [a]

variable {handshake : List TlsCall}

theorem flatMap_readActs (e : End) (result : IoStatus × List UInt8) (pieces : List (List UInt8)) :
    (readActs e result pieces).flatMap (actOverTls handshake) = readActs e result pieces := by
  simp [readActs, actOverTls, List.flatMap_map, ← List.map_eq_flatMap]

theorem flatMap_writeActs (e : End) (data : List UInt8) (status : IoStatus)
    (pieces : List (List UInt8)) :
    (writeActs e data status pieces).flatMap (actOverTls handshake) =
      writeActs e data status pieces := by
  simp [writeActs, actOverTls, List.flatMap_map, ← List.map_eq_flatMap]

variable {L : Lender β}

theorem OverTls.read_agrees :
    Prog.Agrees (actOverTls handshake) (OverTls timeoutMs) (World.answer L) (World.answer L)
      (readMessage .client maxPayload timeoutMs) (readMessage .clientTls maxPayload timeoutMs) := by
  intro w w' hR
  simp only [readMessage, Prog.run_perform, World.answer]
  obtain ⟨handshakes, reads, writes, backendReads, backendWrites, lender⟩ := w
  obtain ⟨handshakes', reads', writes', backendReads', backendWrites', lender'⟩ := w'
  cases hR.reads with
  | nil => exact .neither
  | @cons c c' rest rest' hc hrest =>
      obtain ⟨hplain, htls, hheard⟩ := hc
      cases c with
      | tls => cases hplain
      | plain turns =>
          cases c' with
          | plain => cases htls
          | tls turns' =>
              have hloop : Reading.start.loop maxPayload (turns.map (ReadTurn.outcome timeoutMs)) =
                  Reading.start.loop maxPayload (turns'.map (pumpSsl timeoutMs)) := by
                rw [← loop_heard, ← loop_heard _ (turns'.map (pumpSsl timeoutMs))]
                exact congrArg _ hheard
              simp only [World.readMessage, hloop]
              split
              next result pieces hrun =>
                exact .of_eq (flatMap_readActs _ _ _) { hR with reads := hrest }
              next => exact .neither

theorem OverTls.write_agree {w w' : World β} (hR : OverTls timeoutMs w w') (data : List UInt8) :
    Prog.Agree (actOverTls handshake) (OverTls timeoutMs) (w.writeMessage .client data timeoutMs)
      (w'.writeMessage .clientTls data timeoutMs) := by
  obtain ⟨handshakes, reads, writes, backendReads, backendWrites, lender⟩ := w
  obtain ⟨handshakes', reads', writes', backendReads', backendWrites', lender'⟩ := w'
  cases hR.writes with
  | nil => exact .neither
  | @cons c c' rest rest' hc hrest =>
      obtain ⟨hplain, htls, hpushed⟩ := hc
      cases c with
      | tls => cases hplain
      | plain turns =>
          cases c' with
          | plain => cases htls
          | tls turns' =>
              have hcall : writeCall data (turns.map (WriteTurn.outcome timeoutMs)) =
                  writeCall data (turns'.map (pumpSsl timeoutMs)) := by
                rw [← writeCall_pushed, ← writeCall_pushed _ (turns'.map (pumpSsl timeoutMs))]
                exact congrArg _ hpushed
              simp only [World.writeMessage, hcall]
              split
              next status pieces hrun =>
                exact .of_eq (flatMap_writeActs _ _ _ _) { hR with writes := hrest }
              next => exact .neither

theorem OverTls.reply_agree {w w' : World β} (hR : OverTls timeoutMs w w') (msg : String) :
    Prog.Agree (actOverTls handshake) (OverTls timeoutMs) (w.replyError .client msg timeoutMs)
      (w'.replyError .clientTls msg timeoutMs) := by
  have hwrite : Prog.Agree (actOverTls handshake) _ _ _ := hR.write_agree msg.toUTF8.toList
  simp only [World.replyError]
  generalize w.writeMessage .client msg.toUTF8.toList timeoutMs = x at hwrite
  generalize w'.writeMessage .clientTls msg.toUTF8.toList timeoutMs = x' at hwrite
  cases hwrite with
  | neither => exact .neither
  | both hR' => exact .both hR'

theorem OverTls.backendRead_agrees (fd timeoutMs' : Int) :
    Prog.Agrees (actOverTls handshake) (OverTls timeoutMs) (World.answer L) (World.answer L)
      (readMessage (.backend fd) maxPayload timeoutMs')
      (readMessage (.backend fd) maxPayload timeoutMs') := by
  intro w w' hR
  simp only [readMessage, Prog.run_perform, World.answer]
  obtain ⟨handshakes, reads, writes, backendReads, backendWrites, lender⟩ := w
  obtain ⟨handshakes', reads', writes', backendReads', backendWrites', lender'⟩ := w'
  obtain rfl : backendReads = backendReads' := hR.backendReads
  cases backendReads with
  | nil => exact .neither
  | cons turns rest =>
      simp only [World.readMessage]
      split
      next result pieces hrun =>
        exact .of_eq (flatMap_readActs _ _ _) { hR with backendReads := rfl }
      next => exact .neither

theorem OverTls.backendWrite_agrees (fd timeoutMs' : Int) (data : List UInt8) :
    Prog.Agrees (actOverTls handshake) (OverTls timeoutMs) (World.answer L) (World.answer L)
      (writeMessage (.backend fd) data timeoutMs')
      (writeMessage (.backend fd) data timeoutMs') := by
  intro w w' hR
  simp only [writeMessage, Prog.run_perform, World.answer]
  obtain ⟨handshakes, reads, writes, backendReads, backendWrites, lender⟩ := w
  obtain ⟨handshakes', reads', writes', backendReads', backendWrites', lender'⟩ := w'
  obtain rfl : backendWrites = backendWrites' := hR.backendWrites
  cases backendWrites with
  | nil => exact .neither
  | cons turns rest =>
      simp only [World.writeMessage]
      split
      next status pieces hrun =>
        exact .of_eq (flatMap_writeActs _ _ _ _) { hR with backendWrites := rfl }
      next => exact .neither

theorem OverTls.release_agree {w w' : World β} (hR : OverTls timeoutMs w w') (h : Handle)
    (ok : Bool) :
    Prog.Agree (actOverTls handshake) (OverTls timeoutMs) (w.release L h ok)
      (w'.release L h ok) := by
  simp only [World.release, ← hR.lender]
  split
  next => exact .of_eq rfl { hR with lender := rfl }
  next => exact .neither

/-- The calls of either lending. -/
theorem OverTls.lending_agrees {l : Lending} (hl : l = .pool ∨ l = .set) :
    Prog.Agrees (actOverTls handshake) (OverTls timeoutMs) (World.answer L) (World.answer L)
      l.borrow l.borrow ∧
    ∀ h ok, Prog.Agrees (actOverTls handshake) (OverTls timeoutMs) (World.answer L)
      (World.answer L) (l.release h ok) (l.release h ok) := by
  rcases hl with rfl | rfl
  · constructor
    · refine Prog.Agrees.bind ?_ fun fd _ => .pure _
      intro w w' hR
      simp only [poolBorrow, Prog.run_perform, World.answer, World.poolBorrow, ← hR.lender]
      split
      next => exact .of_eq rfl { hR with lender := rfl }
      next => exact .neither
    · intro h ok w w' hR
      simp only [Lending.pool, poolRelease, Prog.run_perform, World.answer]
      exact hR.release_agree _ ok
  · constructor
    · intro w w' hR
      simp only [Lending.set, setBorrow, Prog.run_perform, World.answer, World.setBorrow,
        ← hR.lender]
      split
      next => exact .of_eq rfl { hR with lender := rfl }
      next => exact .neither
    · intro h ok w w' hR
      simp only [Lending.set, setRelease, Prog.run_perform, World.answer]
      exact hR.release_agree h ok

theorem OverTls.lockstep (opts : HandlerOptions) {l : Lending} (hl : l = .pool ∨ l = .set) :
    Lockstep (actOverTls handshake) (OverTls opts.clientIoTimeoutMs) L L opts .plain l .tls l
      (fun _ => True) where
  read := OverTls.read_agrees
  write data w w' hR := by
    simp only [writeMessage, Prog.run_perform, World.answer]
    exact hR.write_agree data
  reply msg w w' hR := by
    simp only [Transport.plain, Transport.tls, replyErrorPlain, replyErrorTls, Prog.run_perform,
      World.answer]
    exact hR.reply_agree msg
  backendRead fd := OverTls.backendRead_agrees fd _
  backendWrite fd data := OverTls.backendWrite_agrees fd _ data
  borrow := (OverTls.lending_agrees hl).1
  lent _ _ := trivial
  release h ok _ _ := (OverTls.lending_agrees hl).2 h ok
  close w w' hR := .of_eq rfl hR
  errored w w' hR := .of_eq rfl hR
  completed w w' hR := .of_eq rfl hR
  left w w' hR := .of_eq rfl hR

/-- The body with TLS, after a handshake that succeeds. -/
theorem OverTls.handleOne_agrees (opts : HandlerOptions) {l : Lending}
    (hl : l = .pool ∨ l = .set) {w w' : World β} (hR : OverTls opts.clientIoTimeoutMs w w')
    {h : Handshake} {rest : List Handshake} (hw' : w'.handshakes = h :: rest)
    (hcalls : h.calls opts.tlsHandshakeTimeoutMs = some (handshake, true)) :
    Prog.Agree (actOverTls handshake) (OverTls opts.clientIoTimeoutMs)
      ((handleOne l { opts with serverTls := false }).run (World.answer L) w)
      ((handleOne l { opts with serverTls := true }).run (World.answer L) w') := by
  have hR' : OverTls opts.clientIoTimeoutMs w { w' with handshakes := rest } := { hR with }
  have hserve : Prog.Agree (actOverTls handshake) (OverTls opts.clientIoTimeoutMs)
      ((serve .plain l opts).run (World.answer L) w)
      ((serve .tls l opts).run (World.answer L) { w' with handshakes := rest }) :=
    (OverTls.lockstep opts hl).serve_agrees _ _ hR'
  have hshake : (acceptHandshake opts.tlsHandshakeTimeoutMs).run (World.answer L) w' =
      some (true, handshake.map .tls ++ [], { w' with handshakes := rest }) := by
    simp only [acceptHandshake, Prog.run_perform, World.answer, World.acceptHandshake, hw', hcalls,
      if_true]
  have hplain : (handleOne l { opts with serverTls := false }).run (World.answer L) w =
      ((serve .plain l opts).run (World.answer L) w).map
        (fun r => (r.1, [.counted .incInFlight] ++ r.2.1, r.2.2)) :=
    Prog.run_bind_of (by rw [incInFlight, Prog.run_perform]; rfl)
  have htls : (handleOne l { opts with serverTls := true }).run (World.answer L) w' =
      ((serve .tls l opts).run (World.answer L) { w' with handshakes := rest }).map
        (fun r => (r.1, .counted .incInFlight :: handshake.map .tls ++ r.2.1, r.2.2)) := by
    refine (Prog.run_bind_of (by rw [incInFlight, Prog.run_perform]; rfl)).trans ?_
    refine (congrArg _ (Prog.run_bind_of hshake)).trans ?_
    rw [Option.map_map]
    simp only [List.append_nil]
    rfl
  rw [hplain, htls]
  exact hserve.after (by simp [actOverTls])

end OverTls

/-- The overloads agree over a set of one backend, of any weight, and over the pool of
that backend, and they leave the pool in the same state.  In both overloads the body with
TLS agrees with the plaintext body, after a handshake that succeeds and with the same
chunks and statuses from the client. -/
theorem handler_bodies_agree (opts : HandlerOptions) :
    (∀ (π : Type) (P : BackendSet.PoolCalls π) (spec : BackendSet.BackendSpec) (w : World π)
      (s : BackendSet.Members π), s.pools = [w.lender] →
      Prog.Agree (fun a => [a]) OneBackend
        ((handleOnePool opts).run (World.answer (poolLender P)) w)
        ((handleOneSet opts).run (World.answer (setLender P { specs := [spec] }))
          (w.withLender s))) ∧
    (∀ (β : Type) (L : Lender β) (w w' : World β) (h : Handshake) (rest : List Handshake)
      (handshake : List TlsCall), OverTls opts.clientIoTimeoutMs w w' →
      w'.handshakes = h :: rest → h.calls opts.tlsHandshakeTimeoutMs = some (handshake, true) →
      Prog.Agree (actOverTls handshake) (OverTls opts.clientIoTimeoutMs)
        ((handleOnePool { opts with serverTls := false }).run (World.answer L) w)
        ((handleOnePool { opts with serverTls := true }).run (World.answer L) w') ∧
      Prog.Agree (actOverTls handshake) (OverTls opts.clientIoTimeoutMs)
        ((handleOneSet { opts with serverTls := false }).run (World.answer L) w)
        ((handleOneSet { opts with serverTls := true }).run (World.answer L) w')) := by
  constructor
  · intro π P spec w s hs
    exact OneBackend.handleOne_agrees opts w (w.withLender s) ⟨s, hs, rfl⟩
  · intro β L w w' h rest handshake hR hw' hcalls
    rw [handleOnePool_eq, handleOnePool_eq, handleOneSet_eq, handleOneSet_eq]
    exact ⟨OverTls.handleOne_agrees opts (.inl rfl) hR hw' hcalls,
      OverTls.handleOne_agrees opts (.inr rfl) hR hw' hcalls⟩

/-- A new pool, in which a borrow dials and a release keeps the connection. -/
def dialAndKeep : BackendSet.Scripted where
  calls := [[.borrowLock 0, .dialOk 0 7, .incPoolCreate 0, .incPoolBorrow 0],
    [.sample 0, .releaseLock 0 none]]

/-- The messages of `tlsExchange`, in the clear. -/
def plainExchange : World BackendSet.Scripted where
  reads := [.plain [{ recv := .failed .eintr }, { recv := .bytes [0, 0, 0, 1] },
    { recv := .bytes [5] }]]
  writes := [.plain [{ send := .sent 3 }, { send := .failed .eagain }, { send := .sent 1 },
    { send := .sent 1 }, { send := .failed .epipe }]]
  backendReads := tlsExchange.backendReads
  backendWrites := tlsExchange.backendWrites
  lender := dialAndKeep

theorem plainExchange_overTls :
    OverTls 5000 plainExchange (tlsExchange.withLender dialAndKeep) where
  reads := .cons ⟨rfl, rfl, rfl⟩ .nil
  writes := .cons ⟨rfl, rfl, rfl⟩ .nil
  backendReads := rfl
  backendWrites := rfl
  lender := rfl

theorem handler_bodies_agree_plainExchange :
    (((handleOnePool {}).run (World.answer (poolLender (BackendSet.scripted {})))
      plainExchange).any (fun r =>
        clientBytes r.2.1 = [0, 0, 0, 1, 6] && r.2.2.lender.pool.idle.length = 1)) = true ∧
    Prog.Agree (fun a => [a]) OneBackend
      ((handleOnePool {}).run (World.answer (poolLender (BackendSet.scripted {}))) plainExchange)
      ((handleOneSet {}).run (World.answer (setLender (BackendSet.scripted {})
        { specs := [{ host := "127.0.0.1", port := 9090, weight := 3 }] }))
        (plainExchange.withLender { pools := [dialAndKeep] })) ∧
    Prog.Agree (actOverTls [.new, .setNonblocking, .setFd, .accept]) (OverTls 5000)
      ((handleOnePool {}).run (World.answer (poolLender (BackendSet.scripted {}))) plainExchange)
      ((handleOnePool { serverTls := true }).run
        (World.answer (poolLender (BackendSet.scripted {})))
        (tlsExchange.withLender dialAndKeep)) := by
  obtain ⟨hset, htls⟩ := handler_bodies_agree {}
  refine ⟨rfl, ?_, ?_⟩
  · exact hset _ (BackendSet.scripted {}) _ plainExchange { pools := [dialAndKeep] } rfl
  · exact (htls _ (poolLender (BackendSet.scripted {})) plainExchange
      (tlsExchange.withLender dialAndKeep) _ _ _ plainExchange_overTls rfl rfl).1

end InferenceRouter.Handler
