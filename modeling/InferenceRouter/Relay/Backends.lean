import InferenceRouter.Relay.Invariant

/-!
# The steps of the pools and of their connections

A backend answers, a pool's threads take a step, or the reaper goes on with a ping.
That the other connections keep what is known of them rests on ownership: two
descriptors of a pool name two connections, and a connection that is borrowed or
pinged is nowhere else.
-/

namespace InferenceRouter.Relay

open Interleaving Connection Handler

variable {R : Service} {s s' : State} {i j n : Nat} {b b' : Backend} {run : Run}

/-! ## Bytes on connections -/

section Bytes

variable {c c' : Stream} {bytes : List UInt8}

theorem ServerSide.answer {client : Client} {st : Stage} {act : Activity}
    (h : ServerSide R st act c) (hclient : ClientSide R client st act)
    (hc : c.answer R bytes = some c') : ServerSide R st act c' := by
  cases st with
  | start | request | spoilt | ended => trivial
  | lent l q =>
      cases act with
      | writing w => exact ⟨h.1, h.2.answer hclient.2.1 hc⟩
      | idle | reading | borrowing | releasing => exact Stream.Settled.answer h hc
  | sent l q =>
      cases act with
      | reading r => exact Stream.Hears.answer h hclient.2.1 hc
      | idle | writing | borrowing | releasing => exact Stream.Talks.answer h hclient.2.1 hc
  | answered | replied => exact Stream.Settled.answer h hc

/-- What is known of every connection of a pool and survives an answer is known
after it. -/
theorem update_answer {P : Stream → Prop} (hc : (b.conns n).answer R bytes = some c)
    (hP : ∀ x x' : Stream, P x → x.answer R bytes = some x' → P x') {m : Nat} (h : P (b.conns m)) :
    P (Function.update b.conns n c m) := by
  by_cases heq : m = n
  · subst heq
    rw [Function.update_self]
    exact hP _ _ h hc
  · rwa [Function.update_of_ne heq]

/-- A backend answers. -/
theorem Relayed.answer (h : Relayed R s none) (hb : s.backends[i]? = some b)
    (hc : (b.conns n).answer R bytes = some c) : Relayed R (s.setConn i b n c) none := by
  refine h.setBackend hb rfl rfl rfl ?_ (fun _ _ _ _ => Iff.rfl) (fun _ _ hj => hj)
    (Nat.le_refl _) ?_
  · have hkept := h.kept i b hb
    refine ⟨hkept.ledger_congr rfl (fun _ _ _ hn => hn),
      hkept.standing.imp ?_ ?_ (fun _ _ _ hlent => hlent) id⟩
    · intro fd _ hclean m hm
      exact update_answer hc (fun _ _ hx => hx.answer) (hclean m hm)
    · intro fd _ hpinged m hm
      exact update_answer (P := fun x => b.ping.Talks R x) hc (fun _ _ hx => hx.answer)
        (hpinged m hm)
  · intro j run client g e fd _ _ hg _ hheld
    exact ⟨hheld, fun m hm => ⟨hm, update_answer hc (fun _ _ hx => hx.answer hg.client)⟩⟩

/-- The busy run sends or receives on the connection that it has borrowed. -/
theorem Relayed.converse (h : Relayed R s none) (hj : s.runs[j]? = some run)
    (hb : s.backends[i]? = some b) {e fd : Nat} (ht : run.ticket = some (i, e))
    (hheld : b.pool.callers[e]? = some (.held fd)) (hfd : s.table fd = some (.conn i n)) :
    Relayed R (s.setConn i b n c) (some j) := by
  have hkept := h.kept i b hb
  -- Any other descriptor of the pool names another connection.
  have hother : ∀ fd' ∈ (s.view i b).owned, fd' ≠ fd → ∀ m, s.table fd' = some (.conn i m) →
      Function.update b.conns n c m = b.conns m := by
    intro fd' howned hne m hm
    apply Function.update_of_ne
    rintro rfl
    exact hne (hkept.conn_inj howned (held_owned hheld) hm hfd)
  refine h.setBackend hb rfl rfl rfl ?_ (fun _ _ _ _ => Iff.rfl) (fun _ _ hj => hj)
    (Nat.le_refl _) ?_
  · refine ⟨hkept.ledger_congr rfl (fun _ _ _ hn => hn),
      hkept.standing.imp_held hkept.ledger.1.nodup hheld ⟨j, run, hj, ht⟩ ?_ ?_⟩
    · intro fd' howned hne hclean m hm
      show (Function.update b.conns n c m).Settled R
      rw [hother fd' howned hne m hm]
      exact hclean m hm
    · intro fd' howned hne hpinged m hm
      show b.ping.Talks R (Function.update b.conns n c m)
      rw [hother fd' howned hne m hm]
      exact hpinged m hm
  · intro j' run' client g e' fd' hne hj' _ ht' hheld'
    refine ⟨hheld', fun m hm => ⟨hm, ?_⟩⟩
    have hentry : e' ≠ e := by
      rintro rfl
      exact h.ticket_ne hj hj' (fun heq => hne (congrArg some heq.symm)) ht ht' rfl
    have hplace := (BackendPool.held_elsewhere hkept.ledger.1.nodup hheld).2.2 e' _ hheld' hentry
      fd' (by simp [BackendPool.Caller.fds])
    show _ → ServerSide R _ _ (Function.update b.conns n c m)
    rw [hother fd' (held_owned hheld') hplace m hm]
    exact id

end Bytes

/-! ## Steps of a pool -/

section Pool

variable {e : BackendPool.Event} {v : BackendPool.State}

/-- A descriptor of pool `i` after a step of it was one before, or is new. -/
theorem putPool_table_conn (hstep : BackendPool.Step b.opts.normalise (s.view i b) e v)
    {fd : Nat} (h : (s.putPool i b v).table fd = some (.conn i n)) :
    s.table fd = some (.conn i n) ∨ (s.table fd = none ∧ n = b.pool.dials) := by
  simp only [State.putPool] at h
  split at h
  next m hm =>
    cases h
    rcases BackendPool.table_step hstep hm with hold | ⟨hfree, hn⟩
    · exact .inl (view_table_backend.mp hold)
    · exact .inr ⟨by simpa [State.view] using hfree, hn⟩
  next => exact .inl h
  next => cases h

/-- The other files are not touched. -/
theorem putPool_table_other (hstep : BackendPool.Step b.opts.normalise (s.view i b) e v)
    (htame : e.tame = true) (hledger : (s.view i b).Ledger) {fd : Nat} {f : File}
    (h : s.table fd = some f) (hf : ∀ n, f ≠ .conn i n) :
    (s.putPool i b v).table fd = some f := by
  have hother := BackendPool.other_step hstep htame hledger (view_table_other h hf)
  simp only [State.putPool, hother, h]

theorem putPool_table_elsewhere (hstep : BackendPool.Step b.opts.normalise (s.view i b) e v)
    (htame : e.tame = true) (hledger : (s.view i b).Ledger) {k fd : Nat} (hk : k ≠ i) :
    (s.putPool i b v).table fd = some (.conn k n) ↔ s.table fd = some (.conn k n) := by
  constructor
  · intro h
    simp only [State.putPool] at h
    split at h
    next m hm =>
      cases h
      exact absurd rfl hk
    next => exact h
    next => cases h
  · intro h
    apply putPool_table_other hstep htame hledger h
    rintro m heq
    cases heq
    exact hk rfl

/-- The connections of the pool that had been dialled before the step. -/
theorem Kept.putPool_conn (h : Kept R s i b)
    (hstep : BackendPool.Step b.opts.normalise (s.view i b) e v) {fd : Nat}
    (howned : fd ∈ (s.view i b).owned) (hn : (s.putPool i b v).table fd = some (.conn i n)) :
    s.table fd = some (.conn i n) ∧ n < b.pool.dials := by
  obtain ⟨m, hm, hlt⟩ := h.table_owned howned
  rcases putPool_table_conn hstep hn with hold | ⟨hfree, -⟩
  · rw [hm] at hold
    cases hold
    exact ⟨hm, hlt⟩
  · rw [hm] at hfree
    cases hfree

/-- A pool stays kept through its own steps. -/
theorem Kept.putPool (h : Kept R s i b)
    (hstep : BackendPool.Step b.opts.normalise (s.view i b) e v) (htame : e.tame = true) :
    Kept R (s.putPool i b v) i { b with
      pool := v.toPool
      conns := fun n => if n < b.pool.dials then b.conns n else {} } where
  ledger := by
    obtain ⟨hledger, hbad⟩ := BackendPool.ledger_step hstep h.ledger
    refine ⟨hledger.congr ?_, hbad⟩
    intro fd hfd
    obtain ⟨n, hn⟩ := hledger.isOpen fd hfd
    rw [hn]
    exact view_table_backend.mpr (by simp only [State.putPool, hn])
  standing := by
    show v.Standing _ _ _ _
    refine BackendPool.standing_step hstep htame ?_ ?_
      (h.standing.imp ?_ ?_ (fun _ _ _ hlent => hlent) id)
    · rintro c fd rfl n hn
      have hfree : (s.view i b).table fd = none := by
        cases hstep with
        | dialOk _ hfree => exact hfree
      have hnew : n = b.pool.dials := by
        rcases putPool_table_conn hstep hn with hold | ⟨-, hn⟩
        · rw [view_table_backend.mpr hold] at hfree
          cases hfree
        · exact hn
      show Stream.Settled R (if n < b.pool.dials then b.conns n else {})
      rw [if_neg (by omega)]
      exact Stream.settled_new
    · intro hfresh fd hclean n hn
      have hstart : b.ping = .start := hfresh
      show b.ping.Talks R _
      rw [hstart]
      exact Ping.talks_start (hclean n hn)
    · intro fd howned hclean n hn
      obtain ⟨hold, hlt⟩ := h.putPool_conn hstep howned hn
      show Stream.Settled R (if n < b.pool.dials then b.conns n else {})
      rw [if_pos hlt]
      exact hclean n hold
    · intro fd howned hpinged n hn
      obtain ⟨hold, hlt⟩ := h.putPool_conn hstep howned hn
      show b.ping.Talks R (if n < b.pool.dials then b.conns n else {})
      rw [if_pos hlt]
      exact hpinged n hold

/-- The threads of a pool take a step. -/
theorem Relayed.pool (h : Relayed R s none) (hb : s.backends[i]? = some b) (htame : e.tame = true)
    (hstep : BackendPool.Step b.opts.normalise (s.view i b) e v) :
    Relayed R (s.putPool i b v) none := by
  have hkept := h.kept i b hb
  refine h.setBackend hb rfl rfl rfl (hkept.putPool hstep htame) ?_ ?_
    (BackendPool.length_callers_step hstep htame) ?_
  · intro k hk fd m
    exact putPool_table_elsewhere hstep htame hkept.ledger hk
  · intro fd j hj
    exact putPool_table_other hstep htame hkept.ledger hj (by simp)
  · intro j run client g c fd _ _ _ _ hheld
    refine ⟨BackendPool.held_step hstep htame hheld, ?_⟩
    intro m hm
    obtain ⟨hold, hlt⟩ := hkept.putPool_conn hstep (held_owned hheld) hm
    refine ⟨hold, ?_⟩
    show _ → ServerSide R _ _ (if m < b.pool.dials then b.conns m else {})
    rw [if_pos hlt]
    exact id

end Pool

/-! ## Pings -/

section Ping

variable {slot : BackendPool.Slot} {toCheck survivors dead : List BackendPool.Slot} {c : Stream}

/-- The connection that is pinged is one of the pool. -/
theorem pinged_owned (hpc : b.pool.reaper = .pinging (slot :: toCheck) survivors dead) :
    slot.fd ∈ (s.view i b).owned := by
  apply BackendPool.mem_owned_of_reaper
  show slot ∈ b.pool.reaper.slots
  rw [hpc]
  exact List.mem_cons_self

/-- The other connections of the pool are not those of the ping. -/
theorem Kept.conn_ne_pinged (h : Kept R s i b)
    (hpc : b.pool.reaper = .pinging (slot :: toCheck) survivors dead)
    (hslot : s.table slot.fd = some (.conn i n)) {fd m : Nat} (howned : fd ∈ (s.view i b).owned)
    (hne : fd ≠ slot.fd) (hm : s.table fd = some (.conn i m)) : m ≠ n := by
  rintro rfl
  exact hne (h.conn_inj howned (pinged_owned hpc) hm hslot)

/-- The reaper uses the connection that it pings, and nobody else's. -/
theorem Relayed.ping (h : Relayed R s none) (hb : s.backends[i]? = some b)
    (hpc : b.pool.reaper = .pinging (slot :: toCheck) survivors dead)
    (hslot : s.table slot.fd = some (.conn i n)) (hbackends : s'.backends = s.backends.set i b')
    (hclients : s'.clients = s.clients) (hruns : s'.runs = s.runs) (htable : s'.table = s.table)
    (hcallers : b'.pool.callers = b.pool.callers)
    (hconns : ∀ m, m < b.pool.dials → m ≠ n → b'.conns m = b.conns m) (hkept' : Kept R s' i b') :
    Relayed R s' none := by
  have hkept := h.kept i b hb
  refine h.setBackend hb hbackends hclients hruns hkept' ?_ ?_ ?_ ?_
  · intro k _ fd m
    rw [htable]
  · intro fd j hj
    rwa [htable]
  · rw [hcallers]
  · intro j run client g e fd _ _ _ _ hheld
    rw [hcallers, htable]
    refine ⟨hheld, fun m hm => ⟨hm, ?_⟩⟩
    have hplace := (BackendPool.pinged_elsewhere hkept.ledger.1.nodup hpc).2.2 e _ hheld fd
      (by simp [BackendPool.Caller.fds])
    obtain ⟨m', hm', hlt⟩ := hkept.table_owned (held_owned hheld)
    rw [hm] at hm'
    cases hm'
    rw [hconns m hlt (hkept.conn_ne_pinged hpc hslot (held_owned hheld) hplace hm)]
    exact id

theorem setPing_eq (hb : s.backends[i]? = some b) (p : Ping) :
    s.setPing i p = { s with backends := s.backends.set i { b with ping := p } } := by
  simp only [State.setPing, hb]

theorem setConn_backend (hb : s.backends[i]? = some b) :
    (s.setConn i b n c).backends[i]? = some { b with conns := Function.update b.conns n c } := by
  show (s.backends.set i _)[i]? = _
  rw [getElem?_set_eq _ hb, if_pos rfl]

/-- A turn of `health_ping_`. -/
theorem Relayed.pingTurn (h : Relayed R s none) (hb : s.backends[i]? = some b)
    (hpc : b.pool.reaper = .pinging (slot :: toCheck) survivors dead)
    (hslot : s.table slot.fd = some (.conn i n)) {p : Ping} (hp : p.Talks R c) :
    Relayed R ((s.setConn i b n c).setPing i p) none := by
  have hkept := h.kept i b hb
  rw [setPing_eq (setConn_backend hb)]
  refine h.ping hb hpc hslot (List.set_set ..) rfl rfl rfl rfl ?_ ?_
  · intro m _ hm
    exact Function.update_of_ne hm _ _
  · refine ⟨hkept.ledger_congr rfl (fun _ _ _ hn => hn),
      hkept.standing.imp_pinged hkept.ledger.1.nodup hpc ?_ ?_⟩
    · intro fd howned hne hclean m hm
      show (Function.update b.conns n c m).Settled R
      rw [Function.update_of_ne (hkept.conn_ne_pinged hpc hslot howned hne hm)]
      exact hclean m hm
    · intro m hm
      have hm : s.table slot.fd = some (.conn i m) := hm
      rw [hslot] at hm
      cases hm
      show p.Talks R (Function.update b.conns n c n)
      rwa [Function.update_self]

/-- A pool that does nothing to the files leaves the table as it is. -/
theorem putPool_table_eq {v : BackendPool.State} (h : v.table = (s.view i b).table) :
    (s.putPool i b' v).table = s.table := by
  funext fd
  have hfd := congrFun h fd
  simp only [State.putPool, hfd, State.view]
  cases hf : s.table fd with
  | none => rfl
  | some f =>
      cases hview : viewFile i f with
      | backend n => simp [viewFile_eq_backend.mp hview, viewFile]
      | other => simp [hview]

/-- The state after `health_ping_` has returned. -/
theorem pingDone_eq {ok : Bool} (hb : s.backends[i]? = some b)
    (h : s.poolStep i (.ping ok) = some s') :
    ∃ v, BackendPool.Step b.opts.normalise (s.view i b) (.ping ok) v ∧
      s'.setPing i .start = { s with
        backends := s.backends.set i { b with
          pool := v.toPool
          ping := .start
          conns := fun m => if m < b.pool.dials then b.conns m else {} } } := by
  obtain ⟨b', v, hb', hstep, rfl⟩ := poolStep_cases h
  rw [hb, Option.some.injEq] at hb'
  subst hb'
  refine ⟨v, hstep, ?_⟩
  have hv : v.table = (s.view i b).table := by
    cases hstep with
    | pingOk | pingFail => rfl
  have hput : (s.putPool i b v).backends[i]? = some { b with
      pool := v.toPool
      conns := fun m => if m < b.pool.dials then b.conns m else {} } := by
    show (s.backends.set i _)[i]? = _
    rw [getElem?_set_eq _ hb, if_pos rfl]
  rw [setPing_eq hput, putPool_table_eq hv]
  simp only [State.putPool, List.set_set]

/-- `health_ping_` returns, with `true` only after a whole answer. -/
theorem Relayed.pingDone (h : Relayed R s none) (hb : s.backends[i]? = some b)
    (hpc : b.pool.reaper = .pinging (slot :: toCheck) survivors dead)
    (hslot : s.table slot.fd = some (.conn i n)) {ok : Bool} {v : BackendPool.State}
    (hstep : BackendPool.Step b.opts.normalise (s.view i b) (.ping ok) v)
    (hbackends : s'.backends = s.backends.set i b') (hclients : s'.clients = s.clients)
    (hruns : s'.runs = s.runs) (htable : s'.table = s.table) (hpool : b'.pool = v.toPool)
    (hping : b'.ping = .start)
    (hconns : ∀ m, m < b.pool.dials → m ≠ n → b'.conns m = b.conns m)
    (hok : ok = true → (b'.conns n).Settled R) : Relayed R s' none := by
  have hkept := h.kept i b hb
  obtain ⟨hledger, hbad⟩ := BackendPool.ledger_step hstep hkept.ledger
  have hv : v.table = (s.view i b).table ∧ v.callers = b.pool.callers := by
    cases hstep with
    | pingOk | pingFail => exact ⟨rfl, rfl⟩
  have hview : s'.view i b' = { v with now := s'.now } := by
    simp only [State.view, htable, hpool, hv.1]
  refine h.ping hb hpc hslot hbackends hclients hruns htable ?_ hconns ?_
  · rw [hpool, hv.2]
  · refine ⟨by rw [hview]; exact ⟨hledger, hbad⟩, ?_⟩
    rw [hview]
    show v.Standing _ _ _ _
    have hweak : (s.view i b).Standing (s'.Clean R i b') (fun _ => True) (s'.HasLent i) True := by
      have hlent : s'.HasLent i = s.HasLent i := by
        funext c
        simp only [State.HasLent, hruns]
      rw [hlent]
      refine hkept.standing.imp_pinged hkept.ledger.1.nodup hpc ?_ trivial
      intro fd howned hne hclean m hm
      rw [htable] at hm
      obtain ⟨m', hm', hlt⟩ := hkept.table_owned howned
      rw [hm] at hm'
      cases hm'
      rw [hconns m hlt (hkept.conn_ne_pinged hpc hslot howned hne hm)]
      exact hclean m hm
    refine BackendPool.standing_ping hstep hpc ?_ hping ?_ hweak
    · intro htrue m hm
      rw [htable, hslot] at hm
      cases hm
      exact hok htrue
    · intro fd hclean m hm
      rw [hping]
      exact Ping.talks_start (hclean m hm)

/-- The pinged connection, and what it has carried. -/
theorem Kept.pinged (h : Kept R s i b) {fd : Nat} (hfd : b.pinged = some fd) :
    ∃ (slot : BackendPool.Slot) (toCheck survivors dead : List BackendPool.Slot) (n : Nat),
      b.pool.reaper = .pinging (slot :: toCheck) survivors dead ∧ slot.fd = fd ∧
      s.table fd = some (.conn i n) ∧ b.ping.Talks R (b.conns n) := by
  simp only [Backend.pinged] at hfd
  split at hfd
  next slot toCheck survivors dead hpc =>
    cases hfd
    obtain ⟨n, hn, -⟩ := h.table_owned (pinged_owned hpc)
    have hreaper : b.pool.reaper.Standing _ _ _ := h.standing.reaper
    rw [hpc] at hreaper
    exact ⟨slot, toCheck, survivors, dead, n, hpc, rfl, hn, hreaper.1 n hn⟩
  next => cases hfd

theorem sendTo_conn (hb : s.backends[i]? = some b) (asResponse : Bool) (bytes : List UInt8) :
    s.sendTo asResponse bytes (.conn i n) = s.setConn i b n ((b.conns n).send bytes) := by
  simp only [State.sendTo, hb]

theorem recvFrom_conn (hb : s.backends[i]? = some b) {bytes : List UInt8}
    (h : s.recvFrom bytes (.conn i n) = some s') :
    bytes <+: (b.conns n).unread ∧ s' = s.setConn i b n ((b.conns n).recv bytes.length) := by
  simp only [State.recvFrom, hb] at h
  split at h
  next hbytes =>
    cases h
    exact ⟨hbytes, rfl⟩
  next => cases h

variable {fd : Nat} {w w' : Writing} {r r' : Reading} {file : File} {bytes : List UInt8} {k : Nat}

theorem Relayed.pingSendMore (h : Relayed R s none) (hb : s.backends[i]? = some b)
    (hw : b.ping = .writing w) (hfd : b.pinged = some fd) (hfile : s.table fd = some file)
    (hk : k ≤ w.need []) (hsend : w.send [] k = .inl w') :
    Relayed R ((s.sendTo false (w.chunk [] k) file).setPing i (.writing w')) none := by
  obtain ⟨slot, _, _, _, n, hpc, rfl, hn, htalks⟩ := (h.kept i b hb).pinged hfd
  rw [hn, Option.some.injEq] at hfile
  subst hfile
  rw [hw] at htalks
  obtain ⟨hvalid, htalks⟩ := htalks
  obtain ⟨hvalid', hpos⟩ := Writing.send_more hvalid hk hsend
  rw [sendTo_conn hb]
  refine h.pingTurn hb hpc hn ⟨hvalid', ?_⟩
  rw [hpos]
  exact htalks.write hvalid hk

theorem Relayed.pingSendDone (h : Relayed R s none) (hb : s.backends[i]? = some b)
    (hw : b.ping = .writing w) (hfd : b.pinged = some fd) (hfile : s.table fd = some file)
    (hk : k ≤ w.need []) {status : IoStatus} (hsend : w.send [] k = .inr status) :
    Relayed R ((s.sendTo false (w.chunk [] k) file).setPing i (.reading .start)) none := by
  obtain ⟨slot, _, _, _, n, hpc, rfl, hn, htalks⟩ := (h.kept i b hb).pinged hfd
  rw [hn, Option.some.injEq] at hfile
  subst hfile
  rw [hw] at htalks
  obtain ⟨hvalid, htalks⟩ := htalks
  have hwhole := htalks.write hvalid hk
  rw [(Writing.send_done hvalid hk hsend).2] at hwhole
  rw [sendTo_conn hb]
  exact h.pingTurn hb hpc hn hwhole.hears

theorem Relayed.pingRecvMore (h : Relayed R s none) (hb : s.backends[i]? = some b)
    (hr : b.ping = .reading r) (hfd : b.pinged = some fd) (hfile : s.table fd = some file)
    (hneed : bytes.length ≤ r.need) (hs' : s.recvFrom bytes file = some s')
    (hrecv : r.recv kDefaultMaxPayload bytes = .inl r') :
    Relayed R (s'.setPing i (.reading r')) none := by
  obtain ⟨slot, _, _, _, n, hpc, rfl, hn, htalks⟩ := (h.kept i b hb).pinged hfd
  rw [hn, Option.some.injEq] at hfile
  subst hfile
  rw [hr] at htalks
  obtain ⟨hbytes, rfl⟩ := recvFrom_conn hb hs'
  exact h.pingTurn hb hpc hn (Stream.Hears.recv_more htalks hneed hbytes hrecv)

/-- The last `recv` of a ping.  A ping whose answer was read whole leaves the
connection settled. -/
theorem Relayed.pingRecvDone (h : Relayed R s none) (hb : s.backends[i]? = some b)
    (hr : b.ping = .reading r) (hfd : b.pinged = some fd) (hfile : s.table fd = some file)
    (hneed : bytes.length ≤ r.need) (hs' : s.recvFrom bytes file = some s') {status : IoStatus}
    {reply : List UInt8} (hrecv : r.recv kDefaultMaxPayload bytes = .inr (status, reply))
    {s₂ : State} (hs₂ : s'.poolStep i (.ping (status = .kOk && reply.isEmpty)) = some s₂) :
    Relayed R (s₂.setPing i .start) none := by
  obtain ⟨slot, _, _, _, n, hpc, rfl, hn, htalks⟩ := (h.kept i b hb).pinged hfd
  rw [hn, Option.some.injEq] at hfile
  subst hfile
  rw [hr] at htalks
  obtain ⟨hbytes, rfl⟩ := recvFrom_conn hb hs'
  obtain ⟨v, hstep, heq⟩ := pingDone_eq (setConn_backend hb) hs₂
  obtain ⟨m, hm, hlt⟩ := (h.kept i b hb).table_owned (pinged_owned hpc)
  rw [hn] at hm
  cases hm
  rw [heq]
  refine h.pingDone hb hpc hn hstep (List.set_set ..) rfl rfl rfl rfl rfl ?_ ?_
  · intro m hlt hm
    show (if m < b.pool.dials then Function.update b.conns n _ m else {}) = b.conns m
    rw [if_pos hlt, Function.update_of_ne hm]
  · intro hok
    simp only [Bool.and_eq_true, decide_eq_true_eq] at hok
    rw [hok.1] at hrecv
    show Stream.Settled R (if n < b.pool.dials then Function.update b.conns n _ n else {})
    rw [if_pos hlt, Function.update_self]
    exact (Stream.Hears.recv_ok htalks (by simp) hneed hbytes hrecv).2

theorem Relayed.pingStop (h : Relayed R s none) (hs' : s.poolStep i (.ping false) = some s') :
    Relayed R (s'.setPing i .start) none := by
  obtain ⟨b, v, hb, hstep, -⟩ := poolStep_cases hs'
  obtain ⟨v, hstep, heq⟩ := pingDone_eq hb hs'
  have hpinging : ∃ slot toCheck survivors dead,
      b.pool.reaper = .pinging (slot :: toCheck) survivors dead := by
    cases hstep with
    | pingFail hpc => exact ⟨_, _, _, _, hpc⟩
  obtain ⟨slot, toCheck, survivors, dead, hpc⟩ := hpinging
  obtain ⟨n, hn, -⟩ := (h.kept i b hb).table_owned (pinged_owned hpc)
  rw [heq]
  refine h.pingDone hb hpc hn hstep rfl rfl rfl rfl rfl rfl ?_ (fun hok => by cases hok)
  intro m hlt _
  exact if_pos hlt

end Ping

end InferenceRouter.Relay
