import SqlCompose.Proofs.Pool.Induction

/-!
# Histories of connections

The history of a connection (`Pool.history`) is what was said on it, statement by
statement with its reply.  This module has the shapes of a history.

* `Settled`: no transaction is open.  There are statements of the pool and of
  clients, failed attempts to begin, and transactions that were ended.
* `Running h`: a settled history, and then the transaction of a handle from
  its successful `BEGIN` on.

`issue_heard` says what an issued statement does to a pool and to its
histories, so nothing behind it looks into the log.
-/

namespace SqlCompose

/-! ## Exchanges -/

/-- A statement with its reply, on one connection. -/
structure Exchange where
  speaker : Speaker
  sql : Text
  reply : Reply
  deriving DecidableEq

/-- What a statement gives whose reply this is. -/
def Reply.outcome : Reply → Except QueryFailure ResultSet
  | result set => .ok set
  | error message => .error (.server message)
  | hangup => .error .connectionClosed

/-- What an event says on a connection. -/
def Event.exchange? (c : Connection) : Event → Option Exchange
  | .issued c' speaker sql reply => if c' = c then some ⟨speaker, sql, reply⟩ else none
  | .opened _ | .closed _ => none

/-- The statements that were issued on a connection. -/
def Pool.history (p : Pool) (c : Connection) : List Exchange :=
  p.log.filterMap (Event.exchange? c)

/-! ## Shapes -/

/-- A handle of a transaction that has not said anything in a history. -/
def IsNew (h : Handle) (history : List Exchange) : Prop :=
  ∀ e ∈ history, e.speaker ≠ .transaction h

/-- A successful `BEGIN`, and statements that are all of the transaction that it began. -/
def IsOpenBlock (h : Handle) (block : List Exchange) : Prop :=
  ∃ set body, block = ⟨.transaction h, "BEGIN", .result set⟩ :: body ∧
    ∀ e ∈ body, e.speaker = .transaction h

/-- A history that leaves no transaction open. -/
inductive Settled : List Exchange → Prop
  | nil : Settled []
  /-- A statement of the pool or of a client. -/
  | single {earlier : List Exchange} {e : Exchange} (hs : Settled earlier)
      (h : ∀ h, e.speaker ≠ .transaction h) : Settled (earlier ++ [e])
  /-- A transaction that did not begin. -/
  | failed {earlier : List Exchange} {h : Handle} {reply : Reply} (hs : Settled earlier)
      (hnew : IsNew h earlier) (hreply : ∀ set, reply ≠ .result set) :
      Settled (earlier ++ [⟨.transaction h, "BEGIN", reply⟩])
  /-- A transaction that was committed or rolled back. -/
  | ended {earlier block : List Exchange} {h : Handle} {sql : Text} {set : ResultSet}
      (hs : Settled earlier) (hnew : IsNew h earlier) (hblock : IsOpenBlock h block)
      (hsql : Pool.IsEnding sql) :
      Settled (earlier ++ block ++ [⟨.transaction h, sql, .result set⟩])

/-- A settled history with the open transaction of a handle behind it. -/
def Running (h : Handle) (history : List Exchange) : Prop :=
  ∃ earlier block, history = earlier ++ block ∧ Settled earlier ∧ IsNew h earlier ∧
    IsOpenBlock h block

variable {h : Handle} {history block : List Exchange} {sql : Text}

theorem IsOpenBlock.singleton (h : Handle) (set : ResultSet) :
    IsOpenBlock h [⟨.transaction h, "BEGIN", .result set⟩] :=
  ⟨set, [], rfl, by simp⟩

theorem IsOpenBlock.snoc {e : Exchange} (hblock : IsOpenBlock h block)
    (he : e.speaker = .transaction h) : IsOpenBlock h (block ++ [e]) := by
  obtain ⟨set, body, rfl, hbody⟩ := hblock
  refine ⟨set, body ++ [e], rfl, ?_⟩
  intro e' he'
  rcases List.mem_append.1 he' with hmem | hmem
  · exact hbody e' hmem
  · rw [List.mem_singleton.1 hmem, he]

theorem Settled.begin (hs : Settled history) (hnew : IsNew h history) (set : ResultSet) :
    Running h (history ++ [⟨.transaction h, "BEGIN", .result set⟩]) :=
  ⟨history, _, rfl, hs, hnew, .singleton h set⟩

theorem Running.snoc {e : Exchange} (hr : Running h history) (he : e.speaker = .transaction h) :
    Running h (history ++ [e]) := by
  obtain ⟨earlier, block, rfl, hs, hnew, hblock⟩ := hr
  exact ⟨earlier, block ++ [e], List.append_assoc _ _ _, hs, hnew, hblock.snoc he⟩

theorem Running.settle (hr : Running h history) (hsql : Pool.IsEnding sql) (set : ResultSet) :
    Settled (history ++ [⟨.transaction h, sql, .result set⟩]) := by
  obtain ⟨earlier, block, rfl, hs, hnew, hblock⟩ := hr
  exact .ended hs hnew hblock hsql

/-! ## Events and histories -/

namespace Pool

variable {p p' : Pool} {c : Connection}

theorem history_record (p : Pool) (e : Event) (c : Connection) :
    (p.record e).history c = p.history c ++ (e.exchange? c).toList := by
  rw [history, record, List.filterMap_append]
  cases h : e.exchange? c <;> simp [history, h]

/-- An event that says nothing on a connection leaves its history as it is. -/
theorem history_record_of_silent {e : Event} (he : e.exchange? c = none) :
    (p.record e).history c = p.history c := by
  rw [history_record, he]
  exact List.append_nil _

/-- An exchange on a connection, which is all that a pool and its successor differ in. -/
structure Hears (p : Pool) (c : Connection) (e : Exchange) (p' : Pool) : Prop where
  idle : p'.idle = p.idle
  held : p'.held = p.held
  attempts : p'.attempts = p.attempts
  handles : p'.handles = p.handles
  history_self : p'.history c = p.history c ++ [e]
  history_other : ∀ c', c' ≠ c → p'.history c' = p.history c'

theorem issue_of_broken (s : Server) (speaker : Speaker) (sql : Text) (hbroken : c ∈ p.broken) :
    p.issue s speaker c sql = (.error .connectionClosed, p) := by
  rw [issue, if_pos hbroken]

/-- A statement on a connection that is not known to be broken is heard, and its reply is the
result.  A hangup breaks the connection. -/
theorem issue_heard (s : Server) (speaker : Speaker) (sql : Text) (hopen : c ∉ p.broken) :
    ∃ p', p.issue s speaker c sql = ((s.reply p.log c sql).outcome, p') ∧
      p.Hears c ⟨speaker, sql, s.reply p.log c sql⟩ p' ∧
      p'.broken = if s.reply p.log c sql = .hangup then c :: p.broken else p.broken := by
  have hears : ∀ reply, p.Hears c ⟨speaker, sql, reply⟩
      (p.record (.issued c speaker sql reply)) := by
    intro reply
    refine ⟨rfl, rfl, rfl, rfl, ?_, ?_⟩
    · rw [history_record, Event.exchange?, if_pos rfl]
      rfl
    · intro c' hc'
      exact history_record_of_silent (if_neg hc'.symm)
  rw [issue, if_neg hopen]
  cases hreply : s.reply p.log c sql with
  | result set => exact ⟨_, rfl, hears _, rfl⟩
  | error message => exact ⟨_, rfl, hears _, rfl⟩
  | hangup =>
    -- The server's hanging up is an event of its own, but nothing was said with it.
    have hclosed : ∀ c', ((p.record (.issued c speaker sql .hangup)).record (.closed c)).history
        c' = (p.record (.issued c speaker sql .hangup)).history c' :=
      fun c' => history_record_of_silent rfl
    refine ⟨_, rfl, ⟨rfl, rfl, rfl, rfl, ?_, ?_⟩, (if_pos rfl).symm⟩
    · exact (hclosed c).trans (hears .hangup).history_self
    · intro c' hc'
      exact (hclosed c').trans ((hears .hangup).history_other c' hc')

/-- The same without saying what the reply depends on. -/
theorem issue_of_not_broken (s : Server) (speaker : Speaker) (sql : Text)
    (hopen : c ∉ p.broken) :
    ∃ reply p', p.issue s speaker c sql = (reply.outcome, p') ∧
      p.Hears c ⟨speaker, sql, reply⟩ p' ∧
      p'.broken = if reply = .hangup then c :: p.broken else p.broken :=
  ⟨_, issue_heard s speaker sql hopen⟩

/-- The three things that a statement can meet: a connection that is known to be broken, a
result, and a failure. -/
theorem issue_cases (s : Server) (speaker : Speaker) (c : Connection) (sql : Text) (p : Pool) :
    (∃ e, p.issue s speaker c sql = (.error e, p)) ∨
    (∃ set p', p.issue s speaker c sql = (.ok set, p') ∧
      p.Hears c ⟨speaker, sql, .result set⟩ p') ∨
    (∃ e reply p', p.issue s speaker c sql = (.error e, p') ∧
      p.Hears c ⟨speaker, sql, reply⟩ p' ∧ ∀ set, reply ≠ .result set) := by
  by_cases hbroken : c ∈ p.broken
  · exact .inl ⟨_, issue_of_broken s speaker sql hbroken⟩
  · obtain ⟨reply, p', hissue, hh, -⟩ := issue_of_not_broken s speaker sql hbroken
    cases reply with
    | result set => exact .inr (.inl ⟨set, p', hissue, hh⟩)
    | error message => exact .inr (.inr ⟨_, _, p', hissue, hh, by simp⟩)
    | hangup => exact .inr (.inr ⟨_, _, p', hissue, hh, by simp⟩)

/-- The same about the pool alone. -/
theorem issue_state (s : Server) (speaker : Speaker) (c : Connection) (sql : Text) (p : Pool) :
    (p.issue s speaker c sql).2 = p ∨
      ∃ reply, p.Hears c ⟨speaker, sql, reply⟩ (p.issue s speaker c sql).2 := by
  rcases issue_cases s speaker c sql p with
    ⟨e, hissue⟩ | ⟨set, p', hissue, hh⟩ | ⟨e, reply, p', hissue, hh, -⟩
  · exact .inl (by rw [hissue])
  · exact .inr ⟨.result set, by rwa [hissue]⟩
  · exact .inr ⟨reply, by rwa [hissue]⟩

end Pool

end SqlCompose
