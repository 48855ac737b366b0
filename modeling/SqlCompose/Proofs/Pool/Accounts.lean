import SqlCompose.Proofs.Pool.Slots

/-!
# Accounts of slots

`Accounted` has what users of an open pool may count on, all of it read off the
balance.  It says how each request, call and end changes the number of slots in
use, when a request waits in vain, and that a pool whose handles have all been
given back can lend every slot again.  `run_accounted` says it about every state
of a run in which the pool has not been closed.
-/

namespace SqlCompose

namespace Pool

variable {s : Server} {start p p' : Pool} {known : Handle → Connection → Prop} {c : Connection}
  {h : Handle} {holding : Holding} {n : Nat}

/-! ## Requests -/

/-- A request to an open pool finds no slot exactly if none is free.  What goes wrong behind
a slot is never told as a timeout. -/
theorem acquire_timeout_iff (s : Server) (hopen : p.closed = false) :
    (p.acquire s).1 = .error timeout ↔ p.freeSlots = 0 := by
  rw [acquire, hopen]
  by_cases hfree : p.freeSlots = 0
  · simp [hfree]
  · rw [if_neg (by simp), if_neg hfree]
    dsimp only
    refine iff_of_false ?_ hfree
    split
    · simp
    · rw [openConnection]
      dsimp only
      split <;> simp [timeout]

theorem get_timeout_iff (s : Server) (hopen : p.closed = false) :
    (p.get s).1 = .error timeout ↔ p.freeSlots = 0 := by
  rw [← acquire_timeout_iff s hopen, get]
  rcases p.acquire s with ⟨e | c, p₁⟩ <;> simp

theorem begin_timeout_iff (s : Server) (hopen : p.closed = false) :
    (p.begin s).1 = .error timeout ↔ p.freeSlots = 0 := by
  rw [← acquire_timeout_iff s hopen, begin]
  rcases p.acquire s with ⟨e | c, p₁⟩
  · simp
  · dsimp only
    rcases p₁.nextHandle.2.issue s (.transaction p₁.nextHandle.1) c "BEGIN" with ⟨e | set, p₂⟩ <;>
      simp [timeout]

theorem statement_timeout_iff (s : Server) (sql : Text) (hopen : p.closed = false) :
    (p.statement s .pool sql).1 = .error timeout ↔ p.freeSlots = 0 := by
  rw [← acquire_timeout_iff s hopen, statement]
  rcases p.acquire s with ⟨e | c, p₁⟩
  · simp
  · dsimp only
    rcases p₁.issue s .pool c sql with ⟨e | set, p₂⟩ <;> simp [timeout, Except.mapError]

/-- The reading of a result is none that a timeout comes from. -/
theorem read_ne_timeout {call : Call} {plan : Plan} (hplan : call.plan = .ok plan)
    (set : ResultSet) : plan.read set ≠ .error timeout := by
  have hcompiled : ∀ {sql : Except TableError Text} {read : ResultSet → Except Error Answer},
      Call.compiled sql read = .ok plan → plan.read = read := by
    intro sql read h
    cases sql with
    | error e => cases h
    | ok sql => exact Except.ok.inj h ▸ rfl
  have hread : plan.read = Plan.readRows ∨ plan.read = Plan.readFirst ∨
      plan.read = Plan.readCount ∨ ∃ reader, plan.read = Plan.readValue reader := by
    cases call with
    | query sql => exact .inl (Except.ok.inj hplan ▸ rfl)
    | queryFirst sql => exact .inr (.inl (Except.ok.inj hplan ▸ rfl))
    | execute sql => exact .inr (.inr (.inl (Except.ok.inj hplan ▸ rfl)))
    | select q | union u | unionAll u | fetch statement => exact .inl (hcompiled hplan)
    | selectRow q => exact .inr (.inl (hcompiled hplan))
    | insert c | update c | delete c | affect statement =>
      exact .inr (.inr (.inl (hcompiled hplan)))
    | selectValue reader q => exact .inr (.inr (.inr ⟨reader, hcompiled hplan⟩))
    | fail e => cases hplan
  rcases hread with hread | hread | hread | ⟨reader, hread⟩
  · simp [hread, Plan.readRows]
  · simp [hread, Plan.readFirst]
  · simp [hread, Plan.readCount]
  · rw [hread, Plan.readValue]
    split
    · simp [timeout]
    · rename_i row _ _
      rcases reader.read set.columns row 0 with e | cell <;>
        simp [timeout, Except.map, Except.mapError]

theorem call_timeout_iff {call : Call} {plan : Plan} (hplan : call.plan = .ok plan) (s : Server)
    (hopen : p.closed = false) : (p.call s .pool call).1 = .error timeout ↔ p.freeSlots = 0 := by
  rw [← statement_timeout_iff s plan.sql hopen, Pool.call, hplan]
  dsimp only
  rcases p.statement s .pool plan.sql with ⟨e | set, p₁⟩
  · simp [Except.bind]
  · simpa [Except.bind] using read_ne_timeout hplan set

/-- A server that accepts everything turns no request away that has a slot. -/
theorem get_of_accepted (haccepted : ∀ log c, s.admission log c = .accepted)
    (hopen : p.closed = false) (hfree : 0 < p.freeSlots) :
    ∃ h c p', p.get s = (.ok h, p') ∧ p'.ledger = p.ledger.take.enter h (.client c) := by
  obtain ⟨c, p₁, hacquire⟩ : ∃ c p₁, p.acquire s = (.ok c, p₁) := by
    rw [acquire, hopen, if_neg (by simp), if_neg (Nat.ne_of_gt hfree)]
    dsimp only
    split
    · exact ⟨_, _, rfl⟩
    · rw [openConnection]
      dsimp only
      rw [haccepted]
      exact ⟨_, _, rfl⟩
  have hlends := lends_get s p
  rcases hget : p.get s with ⟨e | h, p₂⟩
  · rw [get, hacquire] at hget
    cases hget
  · rw [hget] at hlends
    cases hlends with
    | granted _ hl => exact ⟨h, _, p₂, rfl, hl⟩

/-- As many clients get a connection as there are free slots. -/
theorem clients_run_get (haccepted : ∀ log c, s.admission log c = .accepted) {k : Nat}
    (hopen : p.closed = false) (hfree : k ≤ p.freeSlots) :
    (p.run s (List.replicate k .get)).clients = p.clients + k := by
  induction k generalizing p with
  | zero => rfl
  | succ k ih =>
    obtain ⟨h, c, p₁, heq, hl⟩ :=
      get_of_accepted haccepted hopen (Nat.lt_of_lt_of_le (Nat.succ_pos k) hfree)
    obtain ⟨-, hclosed, hslots, hheld⟩ := Ledger.mk.inj hl
    have hslots : p₁.freeSlots = p.freeSlots - 1 := hslots
    have hclients : p₁.clients = p.clients + 1 := by
      rw [clients, hheld, List.countP_append]
      rfl
    have hrest := ih (p := p₁) (hclosed.trans hopen) (by omega)
    rw [List.replicate_succ, run, act, heq]
    show (p₁.run s (List.replicate k .get)).clients = p.clients + (k + 1)
    omega

/-! ## Runs -/

/-- What users of an open pool with `n` slots may count on. -/
structure Accounted (s : Server) (n : Nat) (p : Pool) : Prop where
  /-- A slot is in use for each client and each transaction that has not been given back. -/
  inUse : p.inUse = p.clients + p.transactions
  /-- Every other slot is free. -/
  free : p.freeSlots + p.inUse = n
  get_ok : ∀ h, (p.get s).1 = .ok h → (p.get s).2.inUse = p.inUse + 1
  get_error : ∀ e, (p.get s).1 = .error e → (p.get s).2.inUse = p.inUse
  begin_ok : ∀ h, (p.begin s).1 = .ok h → (p.begin s).2.inUse = p.inUse + 1
  /-- Where the connection was refused or could not begin, no slot is in use for it. -/
  begin_error : ∀ e, (p.begin s).1 = .error e → (p.begin s).2.inUse = p.inUse
  call : ∀ target call, (p.call s target call).2.inUse = p.inUse
  callInside : ∀ h call, (p.callInside s h call).2.inUse = p.inUse
  transaction : ∀ {α : Type} (body : Body α), (p.transaction s body).2.inUse = p.inUse
  /-- A transaction gives its slot back where it is committed, also if that fails, and once. -/
  commit : ∀ h c, p.holding? h = some (.transaction c) →
    (p.commit s h).2.inUse + 1 = p.inUse ∧ (p.commit s h).2.drop h = (p.commit s h).2
  rollback : ∀ h c, p.holding? h = some (.transaction c) →
    (p.rollback s h).2.inUse + 1 = p.inUse ∧ (p.rollback s h).2.drop h = (p.rollback s h).2
  drop : ∀ h holding, p.holding? h = some holding →
    (p.drop h).inUse + 1 = p.inUse ∧ (p.drop h).drop h = p.drop h
  get_timeout : (p.get s).1 = .error timeout ↔ p.inUse = n
  begin_timeout : (p.begin s).1 = .error timeout ↔ p.inUse = n
  call_timeout : ∀ call plan, call.plan = .ok plan →
    ((p.call s .pool call).1 = .error timeout ↔ p.inUse = n)
  /-- When every handle has been given back, there are connections for `n` clients again. -/
  refill : (∀ log c, s.admission log c = .accepted) → p.held = [] →
    ∀ k ≤ n, (p.run s (List.replicate k .get)).clients = k

/-- Every handle that holds something is that of a client or that of a transaction. -/
theorem length_held (p : Pool) : p.held.length = p.clients + p.transactions := by
  have hnot : (fun entry : Handle × Holding => !entry.2.isClient) =
      fun entry => decide ¬entry.2.isClient = true := by
    funext entry
    cases entry.2.isClient <;> rfl
  rw [clients, transactions, hnot]
  exact List.length_eq_countP_add_countP _

namespace Balanced

/-- In use are the slots that are held. -/
theorem inUse_eq (hb : p.Balanced n) (hopen : p.closed = false) : p.inUse = p.held.length := by
  have hcapacity := hb.capacity hopen
  have htotal := hb.total
  rw [inUse]
  omega

/-- One more slot is in use for a handle that was granted. -/
theorem inUse_lends {form : Connection → Holding} {r : Except Error Handle × Pool}
    (hb : p.Balanced n) (hopen : p.closed = false) (hr : p.Lends form r) :
    (∀ h, r.1 = .ok h → r.2.inUse = p.inUse + 1) ∧ ∀ e, r.1 = .error e → r.2.inUse = p.inUse := by
  cases hr with
  | refused hl => exact ⟨fun h heq => (by cases heq), fun e _ => inUse_congr hl⟩
  | @granted h c p' hpos hl =>
    refine ⟨fun h _ => ?_, fun e heq => (by cases heq)⟩
    obtain ⟨-, hclosed, -, hheld⟩ := Ledger.mk.inj hl
    rw [(hb.enter hpos hl).inUse_eq (hclosed.trans hopen), hb.inUse_eq hopen, hheld]
    exact List.length_append

/-- One slot less is in use for a handle that was given back, and none for giving it back
again. -/
theorem inUse_strike (hb : p.Balanced n) (hp : start.Sound known none p) (hopen : p.closed = false)
    (hh : p.holding? h = some holding) (hl : p'.ledger = (p.ledger.strike h).free) :
    p'.inUse + 1 = p.inUse ∧ p'.drop h = p' := by
  have hmem := mem_held_of_holding? hh
  obtain ⟨-, hclosed, -, hheld⟩ := Ledger.mk.inj hl
  refine ⟨?_, drop_of_not_held (holding?_of_strike hl)⟩
  rw [(hb.strike hp hmem hl).inUse_eq (hclosed.trans hopen), hb.inUse_eq hopen, hheld]
  exact hp.length_strike hmem

/-- A pool that is open and in balance is accounted for. -/
theorem accounted (hb : p.Balanced n) (hp : start.Sound known none p) (hopen : p.closed = false)
    (s : Server) : p.Accounted s n := by
  have hinUse := hb.inUse_eq hopen
  have htotal := hb.total
  have hfull : p.freeSlots = 0 ↔ p.inUse = n := by omega
  obtain ⟨hgetOk, hgetError⟩ := hb.inUse_lends hopen (lends_get s p)
  obtain ⟨hbeginOk, hbeginError⟩ := hb.inUse_lends hopen (lends_begin s p)
  exact {
    inUse := hinUse.trans (length_held p)
    free := by omega
    get_ok := hgetOk
    get_error := hgetError
    begin_ok := hbeginOk
    begin_error := hbeginError
    call := fun target call => inUse_congr (call_ledger s target call p)
    callInside := fun h call => inUse_congr (callInside_ledger s h call p)
    transaction := fun body => inUse_congr (hp.transaction_ledger s body)
    commit := fun h c hh => hb.inUse_strike hp hopen hh (finish_ledger s hh)
    rollback := fun h c hh => hb.inUse_strike hp hopen hh (finish_ledger s hh)
    drop := fun h holding hh => hb.inUse_strike hp hopen hh (drop_ledger hh)
    get_timeout := (get_timeout_iff s hopen).trans hfull
    begin_timeout := (begin_timeout_iff s hopen).trans hfull
    call_timeout := fun call plan hplan => (call_timeout_iff hplan s hopen).trans hfull
    refill := by
      intro haccepted hnone k hk
      rw [hnone, List.length_nil] at htotal
      rw [clients_run_get haccepted hopen (by omega), clients, hnone]
      simp }

end Balanced

/-- No slot is lost in a run, against every server. -/
theorem run_accounted (s : Server) (n : Nat) (actions : List Action)
    (hopen : ((ofCapacity n).run s actions).closed = false) :
    ((ofCapacity n).run s actions).Accounted s n := by
  obtain ⟨hp, hb⟩ := run_balanced s n actions
  exact hb.accounted hp hopen s

/-- A connection is refused, a server hangs up on a commit, and a transaction is dropped. -/
theorem run_accounted_hangup :
    let server := Server.scripted [⟨"COMMIT", .hangup⟩] [1]
    let p := (ofCapacity 2).run server [.begin, .begin, .get, .commit 0, .begin, .drop 2]
    p.closed = false ∧ p.Accounted server 2 ∧ p.inUse = 1 :=
  ⟨by decide, run_accounted _ 2 _ (by decide), by decide⟩

end Pool

end SqlCompose
