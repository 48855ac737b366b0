import SqlCompose.Proofs.Pool.Dialogue

/-!
# What a call comes to

A call is compiled, a connection is obtained for it, one statement is issued,
its reply is read, and the connection is given back, in this order.

* `Call.Builds` has the calls that make a statement out of options, each with
  what the builder makes of them and with the `Reading` of the reply.
* `Checkout` says how the target of a call comes by a connection that the server
  has not closed.  `Sound.acquire_live` is the reason why the pool never lends
  any other.
* `Served` is a call with a connection, and `Handled` has every way that a call
  can end, one of which is `Served`.

`run_handled` says it about every state that a run reaches.
-/

namespace SqlCompose

/-! ## What is asked for -/

/-- What is asked for of a reply. -/
inductive Reading where
  | rows
  /-- The first row, if there is one. -/
  | first
  /-- The first cell of the first row. -/
  | value (reader : CellReader)
  /-- The number of affected rows. -/
  | count

/-- The answer that is read from a reply. -/
inductive Reading.Gives : Reading → Reply → Except Error Answer → Prop
  | rows (set : ResultSet) : Gives rows (.result set) (.ok (.rows set.rows))
  | first (set : ResultSet) : Gives first (.result set) (.ok (.row set.rows.head?))
  | count (set : ResultSet) : Gives count (.result set) (.ok (.count set.affected))
  | value {reader : CellReader} {set : ResultSet} {row : List Cell} {cell : Cell}
      (hrow : set.rows.head? = some row) (hcell : reader.read set.columns row 0 = .ok cell) :
      Gives (value reader) (.result set) (.ok (.value cell))
  | noRow {reader : CellReader} {set : ResultSet} (hrows : set.rows = []) :
      Gives (value reader) (.result set) (.error (.notFound "Expected one row, got none"))
  | unreadable {reader : CellReader} {set : ResultSet} {row : List Cell} {cause : QueryFailure}
      (hrow : set.rows.head? = some row) (hcell : reader.read set.columns row 0 = .error cause) :
      Gives (value reader) (.result set) (.error (.query cause))
  | error (reading : Reading) (message : Text) :
      Gives reading (.error message) (.error (.query (.server message)))
  | hangup (reading : Reading) : Gives reading .hangup (.error (.query .connectionClosed))

/-- A call that makes a statement out of options, with what the builder makes of them and what
is asked for of the reply. -/
inductive Call.Builds : Call → Except TableError Text → Reading → Prop
  | select (q : SelectQuery) : Builds (.select q) q.compile .rows
  | selectRow (q : SelectQuery) : Builds (.selectRow q) q.compile .first
  | selectValue (reader : CellReader) (q : SelectQuery) :
      Builds (.selectValue reader q) q.compile (.value reader)
  | insert (c : InsertCommand) : Builds (.insert c) c.compile .count
  | update (c : UpdateCommand) : Builds (.update c) c.compile .count
  | delete (c : DeleteCommand) : Builds (.delete c) c.compile .count
  | union (u : UnionQuery) : Builds (.union u) (u.compileKeeping false) .rows
  | unionAll (u : UnionQuery) : Builds (.unionAll u) (u.compileKeeping true) .rows
  | fetch (statement : Statement) : Builds (.fetch statement) statement.compile .rows
  | affect (statement : Statement) : Builds (.affect statement) statement.compile .count

/-- How a reading is done. -/
def Reading.read : Reading → ResultSet → Except Error Answer
  | rows => Plan.readRows
  | first => Plan.readFirst
  | value reader => Plan.readValue reader
  | count => Plan.readCount

variable {call : Call} {built : Except TableError Text} {reading : Reading}

theorem Call.Builds.plan_eq (hcall : call.Builds built reading) :
    call.plan = Call.compiled built reading.read := by
  cases hcall <;> rfl

/-- The cell that is read is the first one of the first row. -/
theorem Reading.gives_value (reader : CellReader) (set : ResultSet) :
    (value reader).Gives (.result set) (Plan.readValue reader set) := by
  rw [Plan.readValue]
  cases hrows : set.rows with
  | nil => exact .noRow hrows
  | cons row rest =>
    have hrow : set.rows.head? = some row := by rw [hrows, List.head?_cons]
    dsimp only
    cases hcell : reader.read set.columns row 0 with
    | error cause => exact .unreadable hrow hcell
    | ok cell => exact .value hrow hcell

/-- A reply is read as it says. -/
theorem Reading.gives (reading : Reading) (reply : Reply) :
    reading.Gives reply ((reply.outcome.mapError .query).bind reading.read) := by
  cases reply with
  | error message => exact .error reading message
  | hangup => exact .hangup reading
  | result set =>
    cases reading with
    | rows => exact .rows set
    | first => exact .first set
    | count => exact .count set
    | value reader => exact Reading.gives_value reader set

namespace Pool

variable {s : Server} {start p p' p₁ : Pool} {known : Handle → Connection → Prop}
  {c : Connection} {h : Handle} {holding : Holding} {target : Target} {sql : Text}
  {speaker : Speaker}

/-! ## Connections that the server has closed -/

/-- What the server has closed had been used. -/
def Noted (p : Pool) : Prop := ∀ c ∈ p.broken, p.history c ≠ []

namespace Noted

theorem still (hn : p.Noted) (hs : ∀ c, Still c p p') : p'.Noted := by
  intro c hc
  rw [(hs c).history]
  exact hn c ((hs c).broken.1 hc)

theorem issue (hn : p.Noted) (s : Server) (speaker : Speaker) (c : Connection) (sql : Text) :
    (p.issue s speaker c sql).2.Noted := by
  intro x hx
  by_cases hxc : c = x
  · subst hxc
    by_cases hbroken : c ∈ p.broken
    · rw [issue_of_broken s speaker sql hbroken]
      exact hn c hbroken
    · obtain ⟨p', hissue, hh, -⟩ := issue_heard s speaker sql hbroken
      rw [hissue, hh.history_self]
      exact List.append_ne_nil_of_right_ne_nil _ (List.cons_ne_nil _ _)
  · have hstill := still_issue s speaker sql p hxc
    rw [hstill.history]
    exact hn x (hstill.broken.1 hx)

theorem begin (hn : p.Noted) (s : Server) : (p.begin s).2.Noted := by
  have hacquired := hn.still fun c => still_acquire c s p
  rw [Pool.begin]
  generalize p.acquire s = acquired at hacquired ⊢
  obtain ⟨e | c, p₁⟩ := acquired
  · exact hacquired
  · have hissued := Noted.issue (p := p₁.nextHandle.2)
      (hacquired.still fun c => .of_eq rfl rfl) s (.transaction p₁.nextHandle.1) c "BEGIN"
    dsimp only
    generalize p₁.nextHandle.2.issue s (.transaction p₁.nextHandle.1) c "BEGIN" = issued
      at hissued ⊢
    obtain ⟨e | set, p₂⟩ := issued
    · exact hissued.still fun x => still_release x p₂ c
    · exact hissued.still fun x => .of_eq rfl rfl

theorem finish (hn : p.Noted) (s : Server) (sql : Text) (h : Handle) :
    (p.finish s sql h).2.Noted := by
  rw [Pool.finish]
  split
  · rename_i c _
    have hissued := Noted.issue (p := p.forget h) (hn.still fun c => .of_eq rfl rfl) s
      (.transaction h) c sql
    generalize (p.forget h).issue s (.transaction h) c sql = issued at hissued ⊢
    obtain ⟨e | set, p₁⟩ := issued
    · exact hissued.still fun x => still_detach x p₁ c
    · exact hissued.still fun x => still_release x p₁ c
  · exact hn

theorem statement (hn : p.Noted) (s : Server) (target : Target) (sql : Text) :
    (p.statement s target sql).2.Noted := by
  cases target with
  | pool =>
    have hacquired := hn.still fun c => still_acquire c s p
    rw [Pool.statement]
    generalize p.acquire s = acquired at hacquired ⊢
    obtain ⟨e | c, p₁⟩ := acquired
    · exact hacquired
    · exact (Noted.issue hacquired s .pool c sql).still fun x => still_release x _ c
  | handle h =>
    rw [Pool.statement]
    split
    · exact hn.issue s _ _ sql
    · exact hn.issue s _ _ sql
    · exact hn

theorem ofCapacity (n : Nat) : (Pool.ofCapacity n).Noted := by
  intro c hc
  cases hc

end Noted

/-- Every operation keeps the note. -/
theorem preserved_noted (s : Server) : Preserved s (fun _ _ => True) Noted where
  get {p} hn := hn.still fun c => still_get c s p
  begin hn := hn.begin s
  finish {_ sql h} _ hn _ := hn.finish s sql h
  drop {p h} hn _ := hn.still fun c => still_drop c p h
  close {p} hn := hn.still fun c => still_close c p
  statement target sql hn := hn.statement s target sql

theorem run_noted (s : Server) (n : Nat) (actions : List Action) :
    ((Pool.ofCapacity n).run s actions).Noted :=
  (preserved_noted s).run (.ofCapacity n) fun _ _ _ => trivial

/-- What is lent is idle and not known to be broken, or new. -/
theorem acquire_of_ok (hacquire : p.acquire s = (.ok c, p₁)) :
    p.closed = false ∧ (c ∉ p.broken ∨ c = p.attempts + 1) := by
  rw [acquire] at hacquire
  split at hacquire
  · cases hacquire
  rename_i hopen
  refine ⟨Bool.eq_false_iff.2 hopen, ?_⟩
  split at hacquire
  · cases hacquire
  dsimp only at hacquire
  split at hacquire
  · rename_i c' rest hidle
    cases hacquire
    have hne : p.idle.dropWhile (fun c => decide (c ∈ p.broken)) ≠ [] :=
      fun hnil => by simp [discardBroken, hnil] at hidle
    have hhead := List.head_dropWhile_not (fun c => decide (c ∈ p.broken)) hne
    have heq : p.idle.dropWhile (fun c => decide (c ∈ p.broken)) = c :: rest := hidle
    simp only [heq, List.head_cons, decide_eq_false_iff_not] at hhead
    exact .inl hhead
  · rw [openConnection] at hacquire
    dsimp only at hacquire
    split at hacquire <;> cases hacquire
    exact .inr rfl

/-- The pool lends no connection that the server has closed. -/
theorem Sound.acquire_live (hp : start.Sound known none p) (hn : p.Noted)
    (hacquire : p.acquire s = (.ok c, p₁)) : c ∉ p₁.broken := by
  have hstill := still_acquire c s p
  rw [hacquire] at hstill
  rw [hstill.broken]
  rcases (acquire_of_ok hacquire).2 with hlive | rfl
  · exact hlive
  · exact fun hbroken => hn _ hbroken (hp.unopened _ (Nat.lt_succ_self _))

/-! ## Calls with a connection -/

/-- The target of a call comes by a connection that the server has not closed.  In whose name
it speaks there, and the pool that the connection was taken from, are told with it. -/
inductive Checkout (s : Server) (p : Pool) :
    Target → Speaker → Connection → Pool → Prop
  | pool {c : Connection} {p₁ : Pool} (hacquire : p.acquire s = (.ok c, p₁)) :
      Checkout s p .pool .pool c p₁
  | handle {h : Handle} {holding : Holding} (hh : p.holding? h = some holding)
      (hlive : holding.connection ∉ p.broken) :
      Checkout s p (.handle h) (holding.speaker h) holding.connection p

/-- A call with a connection: what it gives, and the pool that it leaves. -/
structure Served (s : Server) (p : Pool) (target : Target) (speaker : Speaker) (c : Connection)
    (p₁ : Pool) (sql : Text) (reading : Reading) (called : Except Error Answer × Pool) :
    Prop where
  /-- The answer is that of the reply to the one statement. -/
  answer : reading.Gives (s.reply p₁.log c sql) called.1
  issued : called.2.history c = p.history c ++ [⟨speaker, sql, s.reply p₁.log c sql⟩]
  /-- On the other connections nothing was said. -/
  silent : ∀ c', c' ≠ c → called.2.history c' = p.history c'
  /-- No further connection was asked for. -/
  attempts : called.2.attempts = p₁.attempts
  /-- Every slot is as free as before, and every handle holds what it held. -/
  ledger : called.2.ledger = p.ledger
  /-- The connection goes back to the pool whatever the reply was. -/
  returned : target = .pool → called.2.idle = p₁.idle ++ [c]
  /-- A handle keeps its connection, and the pool the others. -/
  kept : target ≠ .pool → called.2.idle = p.idle

/-- A handle issues its statements on the connection that it holds. -/
theorem statement_of_holding? (s : Server) (sql : Text) (hh : p.holding? h = some holding) :
    p.statement s (.handle h) sql =
      ((p.issue s (holding.speaker h) holding.connection sql).1.mapError .query,
        (p.issue s (holding.speaker h) holding.connection sql).2) := by
  rw [Pool.statement, hh]
  cases holding <;> rfl

theorem call_of_plan {plan : Plan} (hplan : call.plan = .ok plan) (s : Server) (target : Target)
    (p : Pool) :
    p.call s target call =
      ((p.statement s target plan.sql).1.bind plan.read,
        (p.statement s target plan.sql).2) := by
  rw [Pool.call, hplan]

theorem call_of_plan_error {e : Error} (hplan : call.plan = .error e) (s : Server)
    (target : Target) (p : Pool) : p.call s target call = (.error e, p) := by
  rw [Pool.call, hplan]

theorem served_handle (hh : p.holding? h = some holding) (hlive : holding.connection ∉ p.broken)
    (hplan : call.plan = .ok ⟨sql, reading.read⟩) :
    Served s p (.handle h) (holding.speaker h) holding.connection p sql reading
      (p.call s (.handle h) call) := by
  have hledger := call_ledger s (.handle h) call p
  obtain ⟨p', hissue, hears, -⟩ := issue_heard s (holding.speaker h) sql hlive
  rw [call_of_plan hplan, statement_of_holding? s sql hh, hissue] at hledger ⊢
  exact {
    answer := reading.gives _
    issued := hears.history_self
    silent := hears.history_other
    attempts := hears.attempts
    ledger := hledger
    returned := fun htarget => by cases htarget
    kept := fun _ => hears.idle }

theorem release_idle (hopen : p.closed = false) (c : Connection) :
    (p.release c).idle = p.idle ++ [c] := by
  rw [release]
  dsimp only
  rw [hopen, if_neg (by simp)]

theorem release_attempts (p : Pool) (c : Connection) : (p.release c).attempts = p.attempts := by
  rw [release]
  dsimp only
  split
  · rw [disconnect]
    split <;> rfl
  · rfl

theorem Sound.served_pool (hp : start.Sound known none p) (hn : p.Noted)
    (hacquire : p.acquire s = (.ok c, p₁)) (hplan : call.plan = .ok ⟨sql, reading.read⟩) :
    Served s p .pool .pool c p₁ sql reading (p.call s .pool call) := by
  have hledger := call_ledger s .pool call p
  have hopen := (acquire_of_ok hacquire).1
  have hsame : ∀ c', p₁.history c' = p.history c' := by
    intro c'
    have hstill := still_acquire c' s p
    rw [hacquire] at hstill
    exact hstill.history
  obtain ⟨p', hissue, hears, -⟩ := issue_heard s .pool sql (hp.acquire_live hn hacquire)
  rw [call_of_plan hplan, Pool.statement, hacquire] at hledger ⊢
  dsimp only at hledger ⊢
  rw [hissue] at hledger ⊢
  dsimp only at hledger ⊢
  have hopen' : p'.closed = false := by
    have hclosed : (p'.release c).closed = p.closed := congrArg Ledger.closed hledger
    rw [← hopen, ← hclosed]
    exact (congrArg Ledger.closed (ledger_release p' c)).symm
  exact {
    answer := reading.gives _
    issued := by rw [(still_release c p' c).history, hears.history_self, hsame]
    silent := fun c' hne => by
      rw [(still_release c' p' c).history, hears.history_other c' hne, hsame]
    attempts := by rw [release_attempts, hears.attempts]
    ledger := hledger
    returned := fun _ => by rw [release_idle hopen', hears.idle]
    kept := fun htarget => absurd rfl htarget }

/-! ## Every call -/

/-- What there is to know about a call, in one state of a pool. -/
structure Handled (s : Server) (p : Pool) (target : Target) (built : Except TableError Text)
    (reading : Reading) (called : Except Error Answer × Pool) : Prop where
  /-- What cannot be compiled is told, and nothing is done. -/
  refused : ∀ cause, built = .error cause → called = (.error (.table cause), p)
  /-- With a connection exactly one statement is issued, and it is what the builder returns. -/
  served : ∀ sql speaker c p₁, built = .ok sql → Checkout s p target speaker c p₁ →
    Served s p target speaker c p₁ sql reading called
  /-- The pool may have no connection to lend, and then nothing is said. -/
  unlent : ∀ sql e p₁, built = .ok sql → target = .pool → p.acquire s = (.error e, p₁) →
    called = (.error e, p₁) ∧ p₁.ledger = p.ledger ∧ ∀ c, p₁.history c = p.history c
  /-- On a connection that the server has closed nothing can be said. -/
  lost : ∀ sql h holding, built = .ok sql → target = .handle h → p.holding? h = some holding →
    holding.connection ∈ p.broken → called = (.error (.query .connectionClosed), p)
  /-- Nor can it with a handle that was given back. -/
  finished : ∀ sql h, built = .ok sql → target = .handle h → p.holding? h = none →
    called = (.error finished, p)

theorem acquire_of_error {e : Error} (hacquire : p.acquire s = (.error e, p₁)) :
    p₁.ledger = p.ledger ∧ ∀ c, p₁.history c = p.history c := by
  refine ⟨?_, ?_⟩
  · rcases acquire_ledger s p with ⟨e', p', heq, hl⟩ | ⟨c, p', heq, -, -⟩
    · rw [hacquire] at heq
      cases heq
      exact hl
    · rw [hacquire] at heq
      cases heq
  · intro c
    have hstill := still_acquire c s p
    rw [hacquire] at hstill
    exact hstill.history

theorem Sound.handled (hp : start.Sound known none p) (hn : p.Noted)
    (hcall : call.Builds built reading) (s : Server) (target : Target) :
    Handled s p target built reading (p.call s target call) := by
  have hplan := hcall.plan_eq
  refine ⟨?_, ?_, ?_, ?_, ?_⟩
  · rintro cause rfl
    exact call_of_plan_error hplan s target p
  · rintro sql speaker c p₁ rfl hcheckout
    cases hcheckout with
    | pool hacquire => exact hp.served_pool hn hacquire hplan
    | handle hh hlive => exact served_handle hh hlive hplan
  · rintro sql e p₁ rfl rfl hacquire
    refine ⟨?_, acquire_of_error hacquire⟩
    rw [call_of_plan hplan, Pool.statement, hacquire]
    rfl
  · rintro sql h holding rfl rfl hh hbroken
    rw [call_of_plan hplan, statement_of_holding? s sql hh, issue_of_broken s _ _ hbroken]
    rfl
  · rintro sql h rfl rfl hh
    rw [call_of_plan hplan, Pool.statement, hh]
    rfl

/-- A call is compiled before anything is done, and then comes to exactly one statement, in
every state that a run reaches, against every server. -/
theorem run_handled (s : Server) (n : Nat) (actions : List Action) (target : Target)
    (hcall : call.Builds built reading) :
    Handled s ((ofCapacity n).run s actions) target built reading
      (((ofCapacity n).run s actions).call s target call) :=
  (run_balanced s n actions).1.handled (run_noted s n actions) hcall s target

/-- A cell is read on a connection that a transaction has given back.  The connection goes back
to the pool, also where the server hangs up on it. -/
theorem run_handled_value :
    let integers : CellReader :=
      { read := fun columns row index =>
          match columns[index]?, row[index]? with
          | some type, some (.integer n) =>
            if type = lit "int8" then .ok (.integer n) else .error (.unreadableColumn index)
          | some _, some _ => .error (.unreadableColumn index)
          | _, _ => .error (.noColumn index) }
    let server := Server.scripted
      [⟨"SELECT a", .result { columns := ["int8"], rows := [[.integer 7], []] }⟩,
        ⟨"SELECT *", .hangup⟩] []
    let q : SelectQuery := { table := some (.named "t"), fields := some (.verbatim "a") }
    let p := (ofCapacity 1).run server [.begin, .rollback 0]
    let called := p.call server .pool (.selectValue integers q)
    let lost := called.2.call server .pool (.select { table := some (.named "t") })
    (Call.selectValue integers q).Builds q.compile (.value integers) ∧
      Handled server p .pool q.compile (.value integers) called ∧
      called.1 = .ok (.value (.integer 7)) ∧ called.2.idle = [1] ∧
      lost.1 = .error (.query .connectionClosed) ∧ lost.2.idle = [1] := by
  intro integers server q p called lost
  have hcall : (Call.selectValue integers q).Builds q.compile (.value integers) :=
    .selectValue integers q
  have hhandled := run_handled server 1 [.begin, .rollback 0] .pool hcall
  exact ⟨hcall, hhandled, by decide, by decide, by decide, by decide⟩

end Pool

end SqlCompose
