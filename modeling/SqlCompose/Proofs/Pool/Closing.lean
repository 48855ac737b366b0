import SqlCompose.Proofs.Pool.Calls
import SqlCompose.Proofs.Pool.Transactions

/-!
# A pool that was closed

`Ended start p` says what became of a pool that was closed in the state
`start`.  It lends nothing and opens nothing, and all that has happened since is
what was done with the handles that were held then.  Every operation preserves
this (`preserved_ended`), closing among them.

What users notice is in three parts.

* `acquire_of_closed` and the lemmas behind it: whoever asks the pool itself is
  told that it is closed, and nothing happens.
* `mem_held_of_act`: who holds a handle keeps it until giving it back.
* `Sound.parted`: a connection that is given back is gone for good.

`Shut` has all of it for one state, and `run_shut` says it about every state
behind a `close`.
-/

namespace SqlCompose

namespace Pool

variable {s : Server} {start p p' : Pool} {known : Handle → Connection → Prop} {c : Connection}
  {h k : Handle} {holding : Holding} {sql : Text} {action : Action}

/-! ## The invariant -/

/-- What can still happen when a pool has been closed: connections are closed, and handles
issue statements on those that they hold. -/
inductive Outlasts (start : Pool) : Event → Prop
  | closed (c : Connection) : Outlasts start (.closed c)
  | issued {h : Handle} {holding : Holding} (hmem : (h, holding) ∈ start.held) (sql : Text)
      (reply : Reply) :
      Outlasts start (.issued holding.connection (holding.speaker h) sql reply)

/-- What became of a pool that was closed in the state `start`. -/
structure Ended (start p : Pool) : Prop where
  closed : p.closed = true
  idle : p.idle = []
  /-- No connection was asked for. -/
  attempts : p.attempts = start.attempts
  /-- No handle was given. -/
  handles : p.handles = start.handles
  held : p.held.Sublist start.held
  log : ∃ later, p.log = start.log ++ later ∧ ∀ e ∈ later, start.Outlasts e

namespace Ended

theorem record {e : Event} (he : Ended start p) (hlasts : start.Outlasts e) :
    Ended start (p.record e) := by
  obtain ⟨later, hlog, hlater⟩ := he.log
  refine { he with log := ⟨later ++ [e], ?_, ?_⟩ }
  · rw [Pool.record, hlog, List.append_assoc]
  · intro e' he'
    rcases List.mem_append.1 he' with he' | he'
    · exact hlater e' he'
    · exact List.mem_singleton.1 he' ▸ hlasts

theorem disconnect (he : Ended start p) (c : Connection) : Ended start (p.disconnect c) := by
  rw [Pool.disconnect]
  split
  · exact he
  · exact he.record (.closed c)

/-- The counts of slots and of connections are of no account any more. -/
theorem slots (he : Ended start p) (freeSlots size : Nat) :
    Ended start { p with freeSlots := freeSlots, size := size } :=
  ⟨he.closed, he.idle, he.attempts, he.handles, he.held, he.log⟩

theorem detach (he : Ended start p) (c : Connection) : Ended start (p.detach c) :=
  (he.slots _ _).disconnect c

/-- A connection that comes back is closed. -/
theorem release (he : Ended start p) (c : Connection) : Ended start (p.release c) := by
  rw [Pool.release]
  dsimp only
  rw [if_pos he.closed]
  exact (he.slots _ _).disconnect c

theorem forget (he : Ended start p) (h : Handle) : Ended start (p.forget h) :=
  { he with held := List.filter_sublist.trans he.held }

theorem issue (he : Ended start p) (hmem : (h, holding) ∈ start.held) (s : Server) (sql : Text) :
    Ended start (p.issue s (holding.speaker h) holding.connection sql).2 := by
  have hissued : ∀ reply, Ended start
      (p.record (.issued holding.connection (holding.speaker h) sql reply)) :=
    fun reply => he.record (.issued hmem sql reply)
  rw [Pool.issue]
  split
  · exact he
  · dsimp only
    split
    · exact hissued _
    · exact hissued _
    · exact { (hissued _).record (.closed holding.connection) with }

theorem foldl_disconnect (cs : List Connection) (he : Ended start p) :
    Ended start (cs.foldl Pool.disconnect p) := by
  induction cs generalizing p with
  | nil => exact he
  | cons c cs ih => exact ih (he.disconnect c)

theorem close (he : Ended start p) : Ended start p.close :=
  foldl_disconnect p.idle { he with closed := rfl, idle := rfl }

theorem mem_start (he : Ended start p) (hh : p.holding? h = some holding) :
    (h, holding) ∈ start.held :=
  he.held.subset (mem_held_of_holding? hh)

end Ended

/-- Closing a pool ends it. -/
theorem ended_close (p : Pool) : Ended p p.close := by
  refine Ended.foldl_disconnect p.idle ?_
  exact ⟨rfl, rfl, rfl, rfl, .refl _, [], (List.append_nil _).symm, by simp⟩

/-! ## Who asks the pool -/

theorem acquire_of_closed (s : Server) (hclosed : p.closed = true) :
    p.acquire s = (.error .poolClosed, p) := by
  rw [acquire, if_pos hclosed]

theorem get_of_closed (s : Server) (hclosed : p.closed = true) :
    p.get s = (.error .poolClosed, p) := by
  rw [get, acquire_of_closed s hclosed]

theorem begin_of_closed (s : Server) (hclosed : p.closed = true) :
    p.begin s = (.error .poolClosed, p) := by
  rw [begin, acquire_of_closed s hclosed]

theorem transaction_of_closed {α : Type} (s : Server) (body : Body α) (hclosed : p.closed = true) :
    p.transaction s body = (.error .poolClosed, p) := by
  rw [transaction, begin_of_closed s hclosed]

theorem statement_of_closed (s : Server) (sql : Text) (hclosed : p.closed = true) :
    p.statement s .pool sql = (.error .poolClosed, p) := by
  rw [statement, acquire_of_closed s hclosed]

theorem call_of_closed {call : Call} {plan : Plan} (s : Server) (hplan : call.plan = .ok plan)
    (hclosed : p.closed = true) : p.call s .pool call = (.error .poolClosed, p) := by
  rw [call_of_plan hplan, statement_of_closed s plan.sql hclosed]
  rfl

/-! ## Every operation -/

theorem Ended.statement (he : Ended start p) (s : Server) (target : Target) (sql : Text) :
    Ended start (p.statement s target sql).2 := by
  cases target with
  | pool =>
    rw [statement_of_closed s sql he.closed]
    exact he
  | handle h =>
    cases hh : p.holding? h with
    | none =>
      rw [Pool.statement, hh]
      exact he
    | some holding =>
      rw [statement_of_holding? s sql hh]
      exact he.issue (he.mem_start hh) s sql

theorem Ended.finish (he : Ended start p) (s : Server) (sql : Text) (h : Handle) :
    Ended start (p.finish s sql h).2 := by
  rw [Pool.finish]
  split
  · rename_i c hh
    have hissued := (he.forget h).issue (he.mem_start hh) s sql
    dsimp only [Holding.speaker, Holding.connection] at hissued
    generalize (p.forget h).issue s (.transaction h) c sql = issued at hissued ⊢
    obtain ⟨e | set, p₁⟩ := issued
    · exact hissued.detach c
    · exact hissued.release c
  · exact he

theorem Ended.drop (he : Ended start p) (h : Handle) : Ended start (p.drop h) := by
  rw [Pool.drop]
  split
  · exact (he.forget h).release _
  · exact (he.forget h).detach _
  · exact he

/-- Nothing brings a closed pool back. -/
theorem preserved_ended (s : Server) (start : Pool) :
    Preserved s (fun _ _ => True) (Ended start) where
  get {p} he := by
    rw [get_of_closed s he.closed]
    exact he
  begin {p} he := by
    rw [begin_of_closed s he.closed]
    exact he
  finish {p sql h} _ he _ := he.finish s sql h
  drop {p h} he _ := he.drop h
  close he := he.close
  statement target sql he := he.statement s target sql

theorem Ended.run (he : Ended start p) (s : Server) (actions : List Action) :
    Ended start (p.run s actions) :=
  (preserved_ended s start).run he fun _ _ _ => trivial

/-! ## Who holds a handle -/

/-- An action that gives a handle back. -/
inductive GivesBack (h : Handle) : Action → Prop
  | commit : GivesBack h (.commit h)
  | rollback : GivesBack h (.rollback h)
  | drop : GivesBack h (.drop h)

theorem mem_held_of_finish (s : Server) (sql : Text) (hmem : (h, holding) ∈ p.held) (hne : h ≠ k) :
    (h, holding) ∈ (p.finish s sql k).2.held := by
  by_cases hh : ∃ c, p.holding? k = some (.transaction c)
  · obtain ⟨c, hh⟩ := hh
    exact mem_held_of_strike (finish_ledger s hh) hmem hne
  · rw [finish_of_not_held s fun c hc => hh ⟨c, hc⟩]
    exact hmem

theorem mem_held_of_drop (hmem : (h, holding) ∈ p.held) (hne : h ≠ k) :
    (h, holding) ∈ (p.drop k).held := by
  cases hh : p.holding? k with
  | none =>
    rw [drop_of_not_held hh]
    exact hmem
  | some holding' => exact mem_held_of_strike (drop_ledger hh) hmem hne

theorem mem_held_of_ledger (hl : p'.ledger = p.ledger) (hmem : (h, holding) ∈ p.held) :
    (h, holding) ∈ p'.held := by
  have hheld : p'.held = p.held := congrArg Ledger.held hl
  exact hheld ▸ hmem

/-- A handle is held until it is given back. -/
theorem Sound.mem_held_of_act (hp : start.Sound known none p) (s : Server)
    (hmem : (h, holding) ∈ p.held) (hkeeps : ¬GivesBack h action) :
    (h, holding) ∈ (p.act s action).2.held := by
  cases action with
  | get => exact mem_held_of_lends (lends_get s p) hmem
  | begin => exact mem_held_of_lends (lends_begin s p) hmem
  | commit k =>
    refine mem_held_of_finish s "COMMIT" hmem ?_
    rintro rfl
    exact hkeeps .commit
  | rollback k =>
    refine mem_held_of_finish s "ROLLBACK" hmem ?_
    rintro rfl
    exact hkeeps .rollback
  | drop k =>
    refine mem_held_of_drop hmem ?_
    rintro rfl
    exact hkeeps .drop
  | close => exact (closed_close p).2.2.symm ▸ hmem
  | call target call => exact mem_held_of_ledger (call_ledger s target call p) hmem
  | callInside k call => exact mem_held_of_ledger (callInside_ledger s k call p) hmem
  | transaction calls =>
    exact mem_held_of_ledger (hp.transaction_ledger s (Body.ofCalls calls)) hmem

theorem Sound.mem_held_of_run {actions : List Action}
    (hp : start.Sound (fun _ _ => True) none p) (s : Server) (hmem : (h, holding) ∈ p.held)
    (hkeeps : ∀ action ∈ actions, ¬GivesBack h action) :
    (h, holding) ∈ (p.run s actions).held := by
  induction actions generalizing p with
  | nil => exact hmem
  | cons action rest ih =>
    have hnext : start.Sound (fun _ _ => True) none (p.act s action).2 :=
      (preserved_sound s start _).act hp fun _ _ _ => trivial
    refine ih hnext ?_ fun action' haction' => hkeeps action' (List.mem_cons_of_mem _ haction')
    exact hp.mem_held_of_act s hmem (hkeeps action List.mem_cons_self)

/-! ## What comes back -/

/-- How a transaction ends whose pool was closed: its last statement is issued on its own
connection, and that is closed and never used again. -/
structure Parted (s : Server) (p : Pool) (sql : Text) (h : Handle) (c : Connection)
    (ended : Except Error Unit × Pool) : Prop where
  issued : c ∉ p.broken →
    ended.1 = ((s.reply p.log c sql).outcome.mapError .query).map (fun _ => ()) ∧
      ended.2.history c = p.history c ++ [⟨.transaction h, sql, s.reply p.log c sql⟩]
  /-- On a connection that the server has closed nothing can be said. -/
  lost : c ∈ p.broken →
    ended.1 = .error (.query .connectionClosed) ∧ ended.2.history c = p.history c
  silent : ∀ c', c' ≠ c → ended.2.history c' = p.history c'
  given_back : ended.2.holding? h = none
  gone : ended.2.Outside c ∧ ended.2.Silent s c

/-- A connection that comes back to a closed pool stays outside of it. -/
theorem outside_release (hclosed : p.closed = true) (hc : p.Outside c) :
    (p.release c).Outside c := by
  rw [release]
  dsimp only
  rw [if_pos hclosed]
  exact ((quiet_slots p _ _).trans (quiet_disconnect _ c)).sheds.outside hc

/-- What a transaction is told at its end, and the two ways that its connection can go. -/
theorem finish_of_issue {result : Except QueryFailure ResultSet}
    (hh : p.holding? h = some (.transaction c))
    (hissue : (p.forget h).issue s (.transaction h) c sql = (result, p')) :
    (p.finish s sql h).1 = (result.mapError .query).map (fun _ => ()) ∧
      ((p.finish s sql h).2 = p'.release c ∨ (p.finish s sql h).2 = p'.detach c) := by
  rw [Pool.finish, hh]
  dsimp only
  rw [hissue]
  cases result with
  | error e => exact ⟨rfl, .inr rfl⟩
  | ok set => exact ⟨rfl, .inl rfl⟩

theorem Sound.finish_outside_of_closed (hp : start.Sound known none p) (s : Server) (sql : Text)
    (hclosed : p.closed = true) (hh : p.holding? h = some (.transaction c)) :
    (p.finish s sql h).2.Outside c := by
  have hout : (p.forget h).Outside c := hp.outside_forget (mem_held_of_holding? hh)
  have hledger := ledger_issue s (.transaction h) c sql (p.forget h)
  have hstate := issue_state s (.transaction h) c sql (p.forget h)
  rcases hissue : (p.forget h).issue s (.transaction h) c sql with ⟨result, q⟩
  rw [hissue] at hledger hstate
  have hq : q.Outside c := by
    rcases hstate with rfl | ⟨reply, hears⟩
    · exact hout
    · exact hears.outside_iff.2 hout
  have hclosed' : q.closed = true := (congrArg Ledger.closed hledger).trans hclosed
  rcases (finish_of_issue hh hissue).2 with heq | heq
  · rw [heq]
    exact outside_release hclosed' hq
  · rw [heq]
    exact (quiet_detach q c).sheds.outside hq

theorem Sound.parted (hp : start.Sound known none p) (s : Server) (hclosed : p.closed = true)
    (hsql : IsEnding sql) (hh : p.holding? h = some (.transaction c)) :
    Parted s p sql h c (p.finish s sql h) := by
  have hsound := hp.refl.finish s hsql (h := h) fun _ _ _ _ => trivial
  have hout := hp.finish_outside_of_closed s sql hclosed hh
  -- Nothing is said behind the last statement.
  have hstill : ∀ {result q}, (p.forget h).issue s (.transaction h) c sql = (result, q) →
      ∀ c', (p.finish s sql h).2.history c' = q.history c' := by
    intro result q hissue c'
    rcases (finish_of_issue hh hissue).2 with heq | heq
    · rw [heq, (still_release c' q c).history]
    · rw [heq, (still_detach c' q c).history]
  refine ⟨?_, ?_, ?_, holding?_of_strike (finish_ledger s hh), hout, hsound.silent s hout⟩
  · intro hlive
    obtain ⟨q, hissue, hears, -⟩ := issue_heard (p := p.forget h) s (.transaction h) sql hlive
    refine ⟨(finish_of_issue hh hissue).1, ?_⟩
    rw [hstill hissue, hears.history_self]
    rfl
  · intro hbroken
    have hissue := issue_of_broken (p := p.forget h) s (.transaction h) sql hbroken
    refine ⟨(finish_of_issue hh hissue).1, ?_⟩
    rw [hstill hissue]
    rfl
  · intro c' hne
    rcases hissue : (p.forget h).issue s (.transaction h) c sql with ⟨result, q⟩
    have hother := (still_issue s (.transaction h) sql (p.forget h) hne.symm).history
    rw [hissue] at hother
    rw [hstill hissue, hother]
    rfl

/-- A connection that is not given back with its transaction, or that comes back from a client,
stays outside of a closed pool. -/
theorem Sound.drop_outside_of_closed (hp : start.Sound known none p) (hclosed : p.closed = true)
    (hh : p.holding? h = some holding) : (p.drop h).Outside holding.connection := by
  have hout := hp.outside_forget (mem_held_of_holding? hh)
  rw [Pool.drop, hh]
  cases holding with
  | client c => exact outside_release hclosed hout
  | transaction c => exact (quiet_detach _ c).sheds.outside hout

/-! ## Runs -/

/-- What users may count on when a pool has been closed in the state `start`. -/
structure Shut (s : Server) (start p : Pool) : Prop where
  ended : Ended start p
  get : p.get s = (.error .poolClosed, p)
  begin : p.begin s = (.error .poolClosed, p)
  transaction : ∀ {α : Type} (body : Body α), p.transaction s body = (.error .poolClosed, p)
  /-- A call that comes to a statement is told that the pool is closed. -/
  call : ∀ call plan, call.plan = .ok plan → p.call s .pool call = (.error .poolClosed, p)
  /-- What cannot be compiled is told all the same. -/
  uncompiled : ∀ call cause reading, call.Builds (.error cause) reading →
    p.call s .pool call = (.error (.table cause), p)
  /-- Who holds a handle goes on with its own connection. -/
  served : ∀ h holding call sql reading, p.holding? h = some holding →
    holding.connection ∉ p.broken → call.plan = .ok ⟨sql, reading.read⟩ →
    Served s p (.handle h) (holding.speaker h) holding.connection p sql reading
      (p.call s (.handle h) call)
  commit : ∀ h c, p.holding? h = some (.transaction c) →
    Parted s p "COMMIT" h c (p.commit s h)
  rollback : ∀ h c, p.holding? h = some (.transaction c) →
    Parted s p "ROLLBACK" h c (p.rollback s h)
  /-- What is dropped is closed and never used again. -/
  drop : ∀ h holding, p.holding? h = some holding →
    (p.drop h).holding? h = none ∧ (p.drop h).Outside holding.connection ∧
      (p.drop h).Silent s holding.connection
  /-- No connection is handed out again: whoever holds one later has it now, with the same
  handle. -/
  own : ∀ actions h holding, (p.run s actions).holding? h = some holding →
    p.holding? h = some holding

theorem Ended.self (he : Ended start p) : Ended p p :=
  ⟨he.closed, he.idle, rfl, rfl, .refl _, [], (List.append_nil _).symm, by simp⟩

/-- A pool that is sound and was closed is shut. -/
theorem Sound.shut {origin : Pool} (hp : origin.Sound known none p) (he : Ended start p)
    (s : Server) : Shut s start p where
  ended := he
  get := get_of_closed s he.closed
  begin := begin_of_closed s he.closed
  transaction body := transaction_of_closed s body he.closed
  call _ _ hplan := call_of_closed s hplan he.closed
  uncompiled call cause reading hcall := call_of_plan_error hcall.plan_eq s .pool p
  served h holding call sql reading hh hlive hplan := served_handle hh hlive hplan
  commit h c hh := hp.parted s he.closed (.inl rfl) hh
  rollback h c hh := hp.parted s he.closed (.inr rfl) hh
  drop h holding hh := by
    have hout := hp.drop_outside_of_closed he.closed hh
    have hsound := hp.refl.drop (h := h) fun _ _ => trivial
    exact ⟨holding?_of_strike (drop_ledger hh), hout, hsound.silent s hout⟩
  own actions h holding hh :=
    hp.holding?_of_mem ((he.self.run s actions).mem_start hh)

/-- Closing is final, whatever was done with the pool before and is done with it afterwards.
Those who hold a handle keep it until they give it back. -/
theorem run_shut (s : Server) (n : Nat) (before after : List Action) :
    let start := (ofCapacity n).run s before
    Shut s start (start.close.run s after) ∧
      ∀ h holding, start.holding? h = some holding →
        (∀ action ∈ after, ¬GivesBack h action) →
        (start.close.run s after).holding? h = some holding := by
  intro start
  have hclosed : (ofCapacity n).Sound (fun _ _ => True) none start.close :=
    (run_balanced s n before).1.quiet (quiet_close start)
  have hsound : (ofCapacity n).Sound (fun _ _ => True) none (start.close.run s after) :=
    (preserved_sound s _ _).run hclosed fun _ _ _ => trivial
  refine ⟨hsound.shut ((ended_close start).run s after) s, ?_⟩
  intro h holding hh hkeeps
  have hmem : (h, holding) ∈ start.close.held :=
    (closed_close start).2.2.symm ▸ mem_held_of_holding? hh
  exact hsound.holding?_of_mem (hclosed.mem_held_of_run s hmem hkeeps)

end Pool

end SqlCompose
