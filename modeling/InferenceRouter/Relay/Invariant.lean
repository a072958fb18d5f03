import InferenceRouter.Relay.Model

/-!
# Who may have said what

The invariant of the process.  For each pool, `Kept`: its ledger, and that every
connection which it may lend is settled.  For each run, `Conduct`: where the run
is in the protocol, that its descriptor names its client, what has gone over the
client's connection, and what has gone over the connection that it has borrowed.

A step touches one pool, one client or one run.  The rules of the last section say
what has to be shown of that part; the others keep what is known of them.
-/

namespace InferenceRouter.Relay

open Interleaving Connection Handler

variable {R : Service} {s s' : State} {i j n : Nat} {b b' : Backend} {run : Run}

/-! ## Pools -/

/-- What the pinged connection has carried. -/
def Ping.Talks (R : Service) (c : Stream) : Ping → Prop
  | .writing w => w.Valid [] ∧ c.Talks R [] w.pos 0
  | .reading r => c.Hears R [] r

theorem Ping.talks_start {c : Stream} (h : c.Settled R) : Ping.start.Talks R c :=
  ⟨by simp [Writing.Valid], (Stream.settled_iff_talks []).mp h⟩

theorem Ping.Talks.answer {p : Ping} {c c' : Stream} {bytes : List UInt8} (h : p.Talks R c)
    (hc : c.answer R bytes = some c') : p.Talks R c' := by
  cases p with
  | writing w => exact ⟨h.1, h.2.answer (by simp) hc⟩
  | reading r => exact Stream.Hears.answer h (by simp) hc

/-- The connection behind a descriptor of pool `i` is settled. -/
def State.Clean (R : Service) (s : State) (i : Nat) (b : Backend) (fd : Nat) : Prop :=
  ∀ n, s.table fd = some (.conn i n) → (b.conns n).Settled R

def State.Pinged (R : Service) (s : State) (i : Nat) (b : Backend) (fd : Nat) : Prop :=
  ∀ n, s.table fd = some (.conn i n) → b.ping.Talks R (b.conns n)

/-- Some run has a connection under the entry `c` of pool `i`. -/
def State.HasLent (s : State) (i c : Nat) : Prop :=
  ∃ (j : Nat) (run : Run), s.runs[j]? = some run ∧ run.ticket = some (i, c)

structure Kept (R : Service) (s : State) (i : Nat) (b : Backend) : Prop where
  ledger : (s.view i b).Ledger
  standing : (s.view i b).Standing (s.Clean R i b) (s.Pinged R i b) (s.HasLent i) (b.ping = .start)

theorem viewFile_eq_backend {f : File} : viewFile i f = .backend n ↔ f = .conn i n := by
  cases f with
  | conn k m =>
      simp only [viewFile, File.conn.injEq]
      by_cases hk : k = i
      · simp [hk]
      · simp [hk]
  | client | other => simp [viewFile]

theorem view_table_backend {fd : Nat} :
    (s.view i b).table fd = some (.backend n) ↔ s.table fd = some (.conn i n) := by
  simp only [State.view, Option.map_eq_some_iff, viewFile_eq_backend]
  simp

theorem view_table_other {fd : Nat} {f : File} (h : s.table fd = some f)
    (hf : ∀ n, f ≠ .conn i n) : (s.view i b).table fd = some .other := by
  cases hview : viewFile i f with
  | backend n => exact absurd (viewFile_eq_backend.mp hview) (hf n)
  | other => simp [State.view, h, hview]

/-- The file of a descriptor that the pool owns. -/
theorem Kept.table_owned (h : Kept R s i b) {fd : Nat} (hfd : fd ∈ (s.view i b).owned) :
    ∃ n, s.table fd = some (.conn i n) ∧ n < b.pool.dials := by
  obtain ⟨n, hn⟩ := h.ledger.1.isOpen fd hfd
  exact ⟨n, view_table_backend.mp hn, h.ledger.1.conn_lt hfd hn⟩

/-- A borrower's descriptor belongs to the pool. -/
theorem held_owned {e fd : Nat} (h : b.pool.callers[e]? = some (.held fd)) :
    fd ∈ (s.view i b).owned :=
  BackendPool.mem_owned_of_caller (s := s.view i b) h (by simp [BackendPool.Caller.fds])

/-- Two descriptors that the pool owns name two connections. -/
theorem Kept.conn_inj (h : Kept R s i b) {fd fd' : Nat} (hfd : fd ∈ (s.view i b).owned)
    (hfd' : fd' ∈ (s.view i b).owned) (hn : s.table fd = some (.conn i n))
    (hn' : s.table fd' = some (.conn i n)) : fd = fd' :=
  h.ledger.1.conn_inj hfd hfd' (view_table_backend.mpr hn) (view_table_backend.mpr hn')

/-- The ledger reads only the pool's own files in the table. -/
theorem Kept.ledger_congr (h : Kept R s i b) (hpool : b'.pool = b.pool)
    (htable : ∀ fd ∈ (s.view i b).owned, ∀ n, s.table fd = some (.conn i n) →
      s'.table fd = some (.conn i n)) : (s'.view i b').Ledger := by
  have hledger : BackendPool.Ledger (s.view i b).owned (s'.view i b').table b.pool.dials
      b.pool.closed := by
    apply h.ledger.1.congr
    intro fd hfd
    obtain ⟨n, hn⟩ := h.ledger.1.isOpen fd hfd
    rw [hn]
    exact view_table_backend.mpr (htable fd hfd n (view_table_backend.mp hn))
  have hbad : b.pool.badCloses = 0 := h.ledger.2
  rw [← hpool] at hbad
  refine ⟨?_, hbad⟩
  have howned : (s'.view i b').owned = (s.view i b).owned := by
    simp only [BackendPool.State.owned, State.view, hpool]
  have hdials : (s'.view i b').dials = b.pool.dials := by simp only [State.view, hpool]
  have hclosed : (s'.view i b').closed = b.pool.closed := by simp only [State.view, hpool]
  rw [howned, hdials, hclosed]
  exact hledger

/-- A step that leaves the pool and its files alone. -/
theorem Kept.frame (h : Kept R s i b)
    (htable : ∀ fd n, s'.table fd = some (.conn i n) ↔ s.table fd = some (.conn i n))
    (hlent : ∀ c fd, b.pool.callers[c]? = some (.held fd) → s.HasLent i c → s'.HasLent i c) :
    Kept R s' i b where
  ledger := h.ledger_congr rfl (fun fd _ n hn => (htable fd n).mpr hn)
  standing := h.standing.imp (fun fd _ hclean n hn => hclean n ((htable fd n).mp hn))
    (fun fd _ hpinged n hn => hpinged n ((htable fd n).mp hn)) hlent id

/-! ## Runs -/

/-- The response bytes on a client's connection are those of the answer to the
request that was read from it; `whole` says that there are no more. -/
structure Answered (R : Service) (c : Client) (whole : Bool) : Prop where
  part : c.response = [] ∨ ∃ q, c.received = frame q ∧ c.response <+: frame (R.answer q)
  all : whole = true → ∃ q, c.received = frame q ∧ c.response = frame (R.answer q)

/-- The client's side of a run. -/
def ClientSide (R : Service) (c : Client) : Stage → Activity → Prop
  | .start, .reading r => r.Has c.received ∧ c.response = []
  | .start, _ => c.received = [] ∧ c.response = []
  | .request q, _ | .lent _ q, _ | .sent _ q, _ =>
      c.received = frame q ∧ q.length < 2 ^ 32 ∧ c.response = []
  | .answered _ q p, .writing w =>
      c.received = frame q ∧ p = R.answer q ∧ w.Valid p ∧ c.response = (frame p).take w.pos
  | .answered _ q p, _ => c.received = frame q ∧ p = R.answer q ∧ c.response = []
  | .replied _ whole, _ | .ended whole, _ => Answered R c whole
  | .spoilt _, _ => Answered R c false

/-- The side of the borrowed connection. -/
def ServerSide (R : Service) : Stage → Activity → Stream → Prop
  | .lent _ q, .writing w, c => w.Valid q ∧ c.Talks R q w.pos 0
  | .lent _ _, _, c => c.Settled R
  | .sent _ q, .reading r, c => c.Hears R q r
  | .sent _ q, _, c => c.Talks R q (frame q).length 0
  | .answered _ _ _, _, c | .replied _ _, _, c => c.Settled R
  | _, _, _ => True

/-- The connection that a run has in hand.  It has none once `release` has begun. -/
def inHand (st : Stage) : Activity → Option Lease
  | .releasing _ _ => none
  | _ => st.lease

/-- The pool that a lease is from. -/
def Lease.From (pool i : Nat) : Lease → Prop
  | .pool _ => i = pool
  | .set h => i = h.poolIndex

/-- Under the entry `c` of pool `i` somebody has the descriptor `fd`, and the
connection behind it is as `P` says. -/
def State.Lent (s : State) (i c : Nat) (fd : Int) (P : Stream → Prop) : Prop :=
  ∃ (b : Backend) (fd' : Nat), s.backends[i]? = some b ∧
    b.pool.callers[c]? = some (.held fd') ∧ (fd' : Int) = fd ∧
    ∀ n, s.table fd' = some (.conn i n) → P (b.conns n)

/-- What the run has in hand is lent to it, in the state that the protocol says. -/
def LeaseSide (R : Service) (s : State) (run : Run) (st : Stage) (act : Activity) : Prop :=
  match inHand st act with
  | none => run.ticket = none
  | some l => ∃ i c, run.ticket = some (i, c) ∧ l.From run.pool i ∧
      s.Lent i c l.fd (ServerSide R st act)

/-- The entry among the callers of a pool that a run waits for or has. -/
def Run.claim (run : Run) : Option (Nat × Nat) :=
  match run.act with
  | .borrowing i c => some (i, c)
  | _ => run.ticket

structure Conduct (R : Service) (s : State) (j : Nat) (run : Run) (c : Client) (g : Phase) :
    Prop where
  follows : run.rest.Follows relay g
  isOpen : g.isOpen = true → s.table run.fd = some (.client j)
  client : ClientSide R c g.stage run.act
  completed : 0 < run.tally.completed → g.stage = .ended true
  lease : LeaseSide R s run g.stage run.act
  borrowing : ∀ i c, run.act = .borrowing i c → (∃ q, g.stage = .request q) ∧
    (s.caller i c).isSome = true ∧ ∀ k, run.rest = .call .poolBorrow k → i = run.pool

/-- What a run does with its connection goes on after a step of somebody else. -/
theorem Conduct.frame {c : Client} {g : Phase} (h : Conduct R s j run c g)
    (hopen : s.table run.fd = some (.client j) → s'.table run.fd = some (.client j))
    (hlent : ∀ i c, run.ticket = some (i, c) → ∀ fd,
      s.Lent i c fd (ServerSide R g.stage run.act) → s'.Lent i c fd (ServerSide R g.stage run.act))
    (hcaller : ∀ i c, (s.caller i c).isSome = true → (s'.caller i c).isSome = true) :
    Conduct R s' j run c g where
  follows := h.follows
  isOpen hg := hopen (h.isOpen hg)
  client := h.client
  completed := h.completed
  lease := by
    have hlease := h.lease
    simp only [LeaseSide] at hlease ⊢
    split at hlease
    next => exact hlease
    next l hl =>
      obtain ⟨i, c, hticket, hfrom, hl⟩ := hlease
      exact ⟨i, c, hticket, hfrom, hlent i c hticket l.fd hl⟩
  borrowing i c hact := by
    obtain ⟨hstage, hsome, hpool⟩ := h.borrowing i c hact
    exact ⟨hstage, hcaller i c hsome, hpool⟩

/-- The invariant.  The run `busy` is between two updates of a step, and nothing
is said about its conduct. -/
structure Relayed (R : Service) (s : State) (busy : Option Nat) : Prop where
  kept : ∀ (i : Nat) (b : Backend), s.backends[i]? = some b → Kept R s i b
  conduct : ∀ (j : Nat) (run : Run), s.runs[j]? = some run → busy ≠ some j →
    ∃ c, s.clients[j]? = some c ∧ ∃ g, Conduct R s j run c g
  claims : ∀ (j j' : Nat) (run run' : Run) (t : Nat × Nat), s.runs[j]? = some run →
    s.runs[j']? = some run' → run.claim = some t → run'.claim = some t → j = j'
  length_eq : s.clients.length = s.runs.length

theorem Relayed.weaken (h : Relayed R s none) (busy : Option Nat) : Relayed R s busy :=
  ⟨h.kept, fun j run hj _ => h.conduct j run hj (by simp), h.claims, h.length_eq⟩

/-! ## What a run has in hand -/

theorem Conduct.ticket_eq_none {c : Client} {g : Phase} (h : Conduct R s j run c g)
    (hnone : inHand g.stage run.act = none) : run.ticket = none := by
  have hlease := h.lease
  unfold LeaseSide at hlease
  rwa [hnone] at hlease

/-- A run that has a connection is past its `borrow`. -/
theorem Conduct.claim_eq_ticket {c : Client} {g : Phase} (h : Conduct R s j run c g)
    {t : Nat × Nat} (ht : run.ticket = some t) : run.claim = some t := by
  unfold Run.claim
  split
  next i c' hact =>
    obtain ⟨⟨q, hq⟩, -⟩ := h.borrowing i c' hact
    have hnone := h.ticket_eq_none (by rw [hact, hq]; rfl)
    rw [hnone] at ht
    cases ht
  next => exact ht

/-- The entry that a run waits for or has is there. -/
theorem Conduct.caller_of_claim {c : Client} {g : Phase} (h : Conduct R s j run c g) {k e : Nat}
    (ht : run.claim = some (k, e)) : (s.caller k e).isSome = true := by
  simp only [Run.claim] at ht
  split at ht
  next i c' hact =>
    cases ht
    exact (h.borrowing k e hact).2.1
  next =>
    have hlease := h.lease
    simp only [LeaseSide] at hlease
    split at hlease
    next =>
      rw [ht] at hlease
      cases hlease
    next l hl =>
      obtain ⟨i, c', hticket, -, b, fd, hb, hheld, -⟩ := hlease
      rw [ht] at hticket
      cases hticket
      simp [State.caller, hb, hheld]

/-- Two runs have their connections under two entries. -/
theorem Relayed.ticket_ne (h : Relayed R s none) {j' : Nat} {run' : Run} {t t' : Nat × Nat}
    (hj : s.runs[j]? = some run) (hj' : s.runs[j']? = some run') (hne : j' ≠ j)
    (ht : run.ticket = some t) (ht' : run'.ticket = some t') : t' ≠ t := by
  rintro rfl
  obtain ⟨c, -, g, hg⟩ := h.conduct j run hj (by simp)
  obtain ⟨c', -, g', hg'⟩ := h.conduct j' run' hj' (by simp)
  exact hne (h.claims j' j run' run _ hj' hj (hg'.claim_eq_ticket ht') (hg.claim_eq_ticket ht))

/-! ## Changes of one part -/

/-- Nothing is done to any connection, and no client but that of the busy run
loses its descriptor. -/
theorem Relayed.frame {busy : Option Nat} (h : Relayed R s none)
    (hbackends : s'.backends = s.backends) (hclients : s'.clients = s.clients)
    (hruns : s'.runs = s.runs)
    (htable : ∀ i fd n, s'.table fd = some (.conn i n) ↔ s.table fd = some (.conn i n))
    (hclient : ∀ fd j, busy ≠ some j → s.table fd = some (.client j) →
      s'.table fd = some (.client j)) : Relayed R s' busy := by
  refine ⟨?_, ?_, ?_, ?_⟩
  · intro i b hb
    rw [hbackends] at hb
    refine (h.kept i b hb).frame (htable i) ?_
    rintro c - - ⟨j, run, hj, ht⟩
    exact ⟨j, run, hruns ▸ hj, ht⟩
  · intro j run hj hbusy
    rw [hruns] at hj
    obtain ⟨c, hc, g, hg⟩ := h.conduct j run hj (by simp)
    refine ⟨c, hclients ▸ hc, g, hg.frame (hclient run.fd j hbusy) ?_ ?_⟩
    · rintro i c' - fd ⟨b, fd', hb, hheld, hfd, hP⟩
      exact ⟨b, fd', hbackends ▸ hb, hheld, hfd, fun n hn => hP n ((htable i fd' n).mp hn)⟩
    · intro i c' hcaller
      rwa [State.caller, hbackends]
  · rw [hruns]
    exact h.claims
  · rw [hclients, hruns]
    exact h.length_eq

/-- A file that is no connection is opened or closed. -/
theorem Relayed.setFile {busy : Option Nat} {fd : Nat} {f : Option File} (h : Relayed R s none)
    (hold : ∀ i n, s.table fd ≠ some (.conn i n)) (hnew : ∀ i n, f ≠ some (.conn i n))
    (hclient : ∀ j, busy ≠ some j → s.table fd ≠ some (.client j)) :
    Relayed R { s with table := Function.update s.table fd f } busy := by
  refine h.frame rfl rfl rfl ?_ ?_
  · intro i fd' n
    by_cases heq : fd' = fd
    · subst heq
      simp [hnew i n, hold i n]
    · simp [Function.update_of_ne heq]
  · intro fd' j hbusy hj
    have hne : fd' ≠ fd := by
      rintro rfl
      exact hclient j hbusy hj
    simp [Function.update_of_ne hne, hj]

/-- Something is done to pool `i` or to its connections.  What the runs have in
hand from it stays in their hands, in the state that they know. -/
theorem Relayed.setBackend {busy : Option Nat} (h : Relayed R s none)
    (hb : s.backends[i]? = some b) (hbackends : s'.backends = s.backends.set i b')
    (hclients : s'.clients = s.clients) (hruns : s'.runs = s.runs) (hkept : Kept R s' i b')
    (htable : ∀ k, k ≠ i → ∀ fd n, s'.table fd = some (.conn k n) ↔ s.table fd = some (.conn k n))
    (hclient : ∀ fd j, s.table fd = some (.client j) → s'.table fd = some (.client j))
    (hcallers : b.pool.callers.length ≤ b'.pool.callers.length)
    (hlent : ∀ (j : Nat) (run : Run) (client : Client) (g : Phase) (c fd : Nat), busy ≠ some j →
      s.runs[j]? = some run → Conduct R s j run client g → run.ticket = some (i, c) →
      b.pool.callers[c]? = some (.held fd) → b'.pool.callers[c]? = some (.held fd) ∧
        ∀ n, s'.table fd = some (.conn i n) → s.table fd = some (.conn i n) ∧
          (ServerSide R g.stage run.act (b.conns n) →
            ServerSide R g.stage run.act (b'.conns n))) :
    Relayed R s' busy := by
  refine ⟨?_, ?_, ?_, ?_⟩
  · intro k bk hk
    rw [hbackends, getElem?_set_eq _ hb] at hk
    split at hk
    next heq =>
      cases hk
      exact heq ▸ hkept
    next hne =>
      refine (h.kept k bk hk).frame (htable k hne) ?_
      rintro c - - ⟨j, run, hj, ht⟩
      exact ⟨j, run, hruns ▸ hj, ht⟩
  · intro j run hj hbusy
    rw [hruns] at hj
    obtain ⟨client, hc, g, hg⟩ := h.conduct j run hj (by simp)
    refine ⟨client, hclients ▸ hc, g, hg.frame (hclient run.fd j) ?_ ?_⟩
    · rintro k c ht fd ⟨bk, fd', hbk, hheld, hfd, hP⟩
      by_cases heq : k = i
      · subst heq
        rw [hb, Option.some.injEq] at hbk
        subst hbk
        obtain ⟨hheld', hn⟩ := hlent j run client g c fd' hbusy hj hg ht hheld
        refine ⟨b', fd', by rw [hbackends, getElem?_set_eq _ hb, if_pos rfl], hheld', hfd, ?_⟩
        intro n hfile
        exact (hn n hfile).2 (hP n (hn n hfile).1)
      · refine ⟨bk, fd', ?_, hheld, hfd, fun n hn => hP n ((htable k heq fd' n).mp hn)⟩
        rw [hbackends, getElem?_set_eq _ hb, if_neg heq, hbk]
    · intro k c hcaller
      unfold State.caller at hcaller ⊢
      rw [hbackends, getElem?_set_eq _ hb]
      split
      next heq =>
        subst heq
        rw [hb] at hcaller
        simp only [Option.bind_some, isSome_getElem?] at hcaller ⊢
        omega
      next => exact hcaller
  · rw [hruns]
    exact h.claims
  · rw [hclients, hruns]
    exact h.length_eq

/-- The busy run's client sends or receives. -/
theorem Relayed.setClient (h : Relayed R s none) (j : Nat) (c : Client) :
    Relayed R { s with clients := s.clients.set j c } (some j) := by
  refine ⟨?_, ?_, h.claims, ?_⟩
  · intro i b hb
    exact (h.kept i b hb).frame (fun _ _ => Iff.rfl) (fun _ _ _ hlent => hlent)
  · intro j' run hj' hne
    obtain ⟨c', hc', g, hg⟩ := h.conduct j' run hj' (by simp)
    refine ⟨c', ?_, g, hg.frame id (fun _ _ _ _ hlent => hlent) (fun _ _ hcaller => hcaller)⟩
    show (s.clients.set j c)[j']? = some c'
    rw [List.getElem?_set_ne (fun heq => hne (congrArg some heq)), hc']
  · show (s.clients.set j c).length = _
    rw [List.length_set, h.length_eq]

/-- The busy run goes on. -/
theorem Relayed.setRun (h : Relayed R s (some j)) (hj : s.runs[j]? = some run) {run' : Run}
    {c : Client} {g : Phase} (hc : s.clients[j]? = some c) (hg : Conduct R s j run' c g)
    (hticket : ∀ (k e fd : Nat) (b : Backend), s.backends[k]? = some b →
      b.pool.callers[e]? = some (.held fd) → run.ticket = some (k, e) → run'.ticket = some (k, e))
    (hclaim : ∀ t, run'.claim = some t → ∀ (j' : Nat) (r : Run), s.runs[j']? = some r →
      j' ≠ j → r.claim ≠ some t) : Relayed R (s.setRun j run') none := by
  have hget := getElem?_set_eq run' hj
  refine ⟨?_, ?_, ?_, ?_⟩
  · intro i b hb
    refine (h.kept i b hb).frame (fun _ _ => Iff.rfl) ?_
    rintro e fd hheld ⟨j', r, hj', ht⟩
    by_cases heq : j' = j
    · subst heq
      rw [hj, Option.some.injEq] at hj'
      subst hj'
      exact ⟨j', run', by rw [State.setRun, hget, if_pos rfl], hticket i e fd b hb hheld ht⟩
    · exact ⟨j', r, by rw [State.setRun, hget, if_neg heq, hj'], ht⟩
  · intro j' r hj' _
    simp only [State.setRun] at hj'
    rw [hget] at hj'
    split at hj'
    next heq =>
      cases hj'
      subst heq
      exact ⟨c, hc, g, hg.frame id (fun _ _ _ _ hlent => hlent) (fun _ _ hcaller => hcaller)⟩
    next hne =>
      obtain ⟨c', hc', g', hg'⟩ := h.conduct j' r hj' (by simpa using Ne.symm hne)
      exact ⟨c', hc', g', hg'.frame id (fun _ _ _ _ hlent => hlent) (fun _ _ hcaller => hcaller)⟩
  · intro j₁ j₂ r₁ r₂ t h₁ h₂ ht₁ ht₂
    simp only [State.setRun] at h₁ h₂
    rw [hget] at h₁ h₂
    split at h₁
    next heq₁ =>
      cases h₁
      split at h₂
      next heq₂ => rw [heq₁, heq₂]
      next hne => exact absurd ht₂ (hclaim t ht₁ j₂ r₂ h₂ hne)
    next hne =>
      split at h₂
      next =>
        cases h₂
        exact absurd ht₁ (hclaim t ht₂ j₁ r₁ h₁ hne)
      next => exact h.claims j₁ j₂ r₁ r₂ t h₁ h₂ ht₁ ht₂
  · show s.clients.length = (s.runs.set j run').length
    rw [List.length_set, h.length_eq]

end InferenceRouter.Relay
