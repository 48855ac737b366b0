import SqlCompose.Proofs.Pool.Dialogue
import SqlCompose.Proofs.Pool.Transactions

/-!
# How a transaction around a body ends

A transaction around a body is begun once and ended once, and its result tells
which of the two has failed.  The pool may be used by others meanwhile, and may
be closed.  So the statements are about a `Course`, which is a body with the
actions of others between its statements, and `transaction_eq_ofBody` has a body
alone as a case of it.

`Concluded` has what there is to say about a transaction that has begun, and
`transaction_concludes` says it in every state that a run reaches.
-/

namespace SqlCompose

/-- What happens while a transaction is open: the statements of its body, and whatever else is
done with the pool meanwhile.  Each may depend on the results before it. -/
inductive Course (α : Type) where
  | done (result : Except Error α)
  | statement (sql : Text) (next : Except Error ResultSet → Course α)
  | meanwhile (action : Action) (next : Outcome → Course α)

namespace Course

variable {α : Type}

/-- A body while nothing else is done. -/
def ofBody : Body α → Course α
  | .done result => done result
  | .statement sql next => statement sql fun result => ofBody (next result)

/-- None but the body has the handle of the transaction. -/
def Spares (h : Handle) : Course α → Prop
  | done _ => True
  | statement _ next => ∀ result, (next result).Spares h
  | meanwhile action next => action.handle? ≠ some h ∧ ∀ outcome, (next outcome).Spares h

/-- Runs a course, with the body on the connection of a handle. -/
def run (s : Server) (h : Handle) : Course α → Pool → Except Error α × Pool
  | done result, p => (result, p)
  | statement sql next, p =>
    let (result, p) := p.statement s (.handle h) sql
    run s h (next result) p
  | meanwhile action next, p =>
    let (outcome, p) := p.act s action
    run s h (next outcome) p

/-- The statements of the body with their results, in order. -/
def dialogue (s : Server) (h : Handle) : Course α → Pool → Dialogue
  | done _, _ => []
  | statement sql next, p =>
    let (result, p) := p.statement s (.handle h) sql
    (sql, result) :: dialogue s h (next result) p
  | meanwhile action next, p =>
    let (outcome, p) := p.act s action
    dialogue s h (next outcome) p

theorem run_ofBody (s : Server) (h : Handle) (body : Body α) (p : Pool) :
    (ofBody body).run s h p = body.run s h p := by
  induction body generalizing p with
  | done result => rfl
  | statement sql next ih => exact ih _ _

theorem spares_ofBody (h : Handle) (body : Body α) : (ofBody body).Spares h := by
  induction body with
  | done result => trivial
  | statement sql next ih => exact ih

end Course

namespace Pool

variable {α : Type} {s : Server} {start p p' : Pool} {c : Connection} {h : Handle} {n : Nat}
  {earlier : List Exchange} {dialogue : Dialogue}

/-- Runs a body inside a transaction of its own, while the pool is used by others. -/
def transactionAmid (s : Server) (course : Course α) (p : Pool) : Except Error α × Pool :=
  match p.begin s with
  | (.error e, p) => (.error e, p)
  | (.ok h, p) =>
    match course.run s h p with
    | (.ok value, p) =>
      match p.commit s h with
      | (.ok _, p) => (.ok value, p)
      | (.error e, p) => (.error e, p)
    | (.error e, p) =>
      match p.rollback s h with
      | (.ok _, p) => (.error e, p)
      | (.error e', p) => (.error (rollbackFailed e e'), p)

theorem transaction_eq_ofBody (s : Server) (body : Body α) (p : Pool) :
    p.transaction s body = p.transactionAmid s (.ofBody body) := by
  rcases hbegin : p.begin s with ⟨e | h, p₁⟩
  · simp only [transaction, transactionAmid, hbegin]
  rcases hrun : body.run s h p₁ with ⟨e | value, p₂⟩
  · rcases hback : p₂.rollback s h with ⟨e' | done, p₃⟩ <;>
      simp only [transaction, transactionAmid, hbegin, Course.run_ofBody, hrun, hback]
  · rcases hcommit : p₂.commit s h with ⟨e' | done, p₃⟩ <;>
      simp only [transaction, transactionAmid, hbegin, Course.run_ofBody, hrun, hcommit]

/-! ## The end -/

/-- The statement that a transaction ends with, after the result of its body. -/
def ending : Except Error α → Text
  | .ok _ => "COMMIT"
  | .error _ => "ROLLBACK"

/-- The result of a transaction, after that of its body and that of its end. -/
def conclude : Except Error α → Except Error Unit → Except Error α
  | .ok value, .ok _ => .ok value
  | .ok _, .error e => .error e
  | .error e, .ok _ => .error e
  | .error e, .error e' => .error (rollbackFailed e e')

theorem isEnding_ending (result : Except Error α) : IsEnding (ending result) := by
  cases result with
  | error e => exact .inr rfl
  | ok value => exact .inl rfl

/-- A transaction that has begun runs its course and then ends. -/
theorem transactionAmid_of_begin (course : Course α) (hbegin : p.begin s = (.ok h, p')) :
    p.transactionAmid s course =
      let ran := course.run s h p'
      let ended := ran.2.finish s (ending ran.1) h
      (conclude ran.1 ended.1, ended.2) := by
  rw [transactionAmid, hbegin]
  dsimp only
  rcases course.run s h p' with ⟨e | value, q⟩
  · dsimp only [ending]
    rw [rollback]
    rcases q.finish s "ROLLBACK" h with ⟨e' | done, q'⟩ <;> rfl
  · dsimp only [ending]
    rw [commit]
    rcases q.finish s "COMMIT" h with ⟨e | done, q'⟩ <;> rfl

theorem conclude_eq_ok_iff {result : Except Error α} {answer : Except Error ResultSet}
    {value : α} : conclude result (answer.map fun _ => ()) = .ok value ↔
      result = .ok value ∧ ∃ set, answer = .ok set := by
  cases result <;> cases answer <;> simp [conclude, Except.map]

/-- The error of a failed rollback is never that of the body. -/
theorem rollbackFailed_ne (e e' : Error) : rollbackFailed e e' ≠ e := by
  intro heq
  have hmessage : e.message ++ " (rollback failed: " ++ e'.message ++ ")" = e.message :=
    congrArg Error.message heq
  have hlength := congrArg List.length hmessage
  rw [List.length_append] at hlength
  have hpos : 0 < (lit ")").length := by decide
  rw [List.length_append, List.length_append] at hlength
  omega

theorem conclude_eq_self_iff {e : Error} {answer : Except Error ResultSet} :
    conclude (α := α) (.error e) (answer.map fun _ => ()) = .error e ↔ ∃ set, answer = .ok set := by
  cases answer with
  | ok set => exact iff_of_true rfl ⟨set, rfl⟩
  | error e' =>
    refine iff_of_false ?_ (by simp)
    exact fun heq => rollbackFailed_ne e e' (Except.error.inj heq)

/-- The transaction is under way all along its course. -/
theorem Underway.course (hu : start.Underway n h c earlier dialogue p) (s : Server)
    (course : Course α) (hspares : course.Spares h) :
    start.Underway n h c earlier (dialogue ++ course.dialogue s h p) (course.run s h p).2 := by
  induction course generalizing p dialogue with
  | done result =>
    rw [Course.dialogue, List.append_nil]
    exact hu
  | statement sql next ih =>
    have hnext := ih (p.statement s (.handle h) sql).1 (hu.statement s sql) (hspares _)
    rw [List.append_assoc] at hnext
    exact hnext
  | meanwhile action next ih =>
    obtain ⟨hhandle, hrest⟩ := hspares
    have hother : ∀ k, action.handle? = some k → k ≠ h := fun k hk heq => hhandle (heq ▸ hk)
    have hact := (underway_others s start n h c earlier dialogue).act hother hu
      fun _ _ _ => trivial
    exact ih _ hact (hrest _)

/-- How a transaction ends that was begun in `p` and left the pool `p'` behind it: with this
answer to its last statement, on this connection. -/
structure Concluded (s : Server) (n : Nat) (p : Pool) (course : Course α) (h : Handle) (p' : Pool)
    (c : Connection) (answer : Except Error ResultSet) : Prop where
  /-- One `BEGIN`, the statements of the body and one `COMMIT` or `ROLLBACK` are said on the
  connection, and nothing else. -/
  told : ∃ set, (p.transactionAmid s course).2.Told h c (p.history c)
    ([(lit "BEGIN", .ok set)] ++ course.dialogue s h p' ++
      [(ending (course.run s h p').1, answer)])
  /-- The transaction has spoken on no other connection, and not before. -/
  alone : IsNew h (p.history c) ∧ ∀ c', (p.transactionAmid s course).2.Speaks h c' → c' = c
  ok_iff : ∀ value, (p.transactionAmid s course).1 = .ok value ↔
    (course.run s h p').1 = .ok value ∧ ∃ set, answer = .ok set
  commit_failed : ∀ value e, (course.run s h p').1 = .ok value → answer = .error e →
    (p.transactionAmid s course).1 = .error e
  /-- The error of the body comes back as it was exactly if the rollback succeeds. -/
  unchanged_iff : ∀ e, (course.run s h p').1 = .error e →
    ((p.transactionAmid s course).1 = .error e ↔ ∃ set, answer = .ok set)
  both_failed : ∀ e e', (course.run s h p').1 = .error e → answer = .error e' →
    (p.transactionAmid s course).1 =
      .error (.other (e.message ++ " (rollback failed: " ++ e'.message ++ ")"))
  idle_iff : c ∈ (p.transactionAmid s course).2.idle ↔
    (∃ set, answer = .ok set) ∧ (p.transactionAmid s course).2.closed = false
  /-- A connection that does not go back to the pool is gone for good. -/
  gone : c ∉ (p.transactionAmid s course).2.idle →
    (p.transactionAmid s course).2.Outside c ∧ (p.transactionAmid s course).2.Silent s c
  /-- The transaction has no slot any more, and every slot is free or held. -/
  slots : (p.transactionAmid s course).2.holding? h = none ∧
    (p.transactionAmid s course).2.Balanced n

/-- A transaction that has begun is concluded. -/
theorem Sound.concluded (hp : start.Sound (fun _ _ => True) none p) (hb : p.Balanced n)
    (hbegin : p.begin s = (.ok h, p')) (course : Course α) (hspares : course.Spares h) :
    ∃ c answer, Concluded s n p course h p' c answer := by
  obtain ⟨c, set, hnew, hbegun⟩ := hp.begun hb hbegin
  have hu := hbegun.course s course hspares
  obtain ⟨answer, hanswer, htold, hfate⟩ := hu.finish s (ending (course.run s h p').1)
  have hsound : start.Sound (fun _ _ => True) none
      ((course.run s h p').2.finish s (ending (course.run s h p').1) h).2 :=
    hu.sound.finish s (isEnding_ending _) fun _ _ _ _ => trivial
  have hledger : ((course.run s h p').2.finish s (ending (course.run s h p').1) h).2.ledger =
      ((course.run s h p').2.ledger.strike h).free := finish_ledger s hu.holding?
  have hbalanced := hu.balanced.strike hu.sound hu.held hledger
  have hclosed : _ = (course.run s h p').2.closed := congrArg Ledger.closed hledger
  have hgiven := holding?_of_strike hledger
  have hresult := transactionAmid_of_begin course hbegin
  dsimp only at hresult
  rw [hanswer] at hresult
  generalize ((course.run s h p').2.finish s (ending (course.run s h p').1) h).2 = q
    at hresult htold hfate hsound hbalanced hclosed hgiven
  rw [← hclosed] at hfate
  have hidle : c ∈ q.idle ↔ (∃ set, answer = .ok set) ∧ q.closed = false := by
    rcases hfate with ⟨hreturned, hidle⟩ | ⟨hnot, houtside⟩
    · exact iff_of_true hidle hreturned
    · exact iff_of_false (fun hc => houtside.not_placed (List.mem_append_left _ hc)) hnot
  refine ⟨c, answer, ?_⟩
  exact {
    told := ⟨set, by rw [hresult]; exact htold⟩
    alone := by
      rw [hresult]
      exact ⟨hnew, fun c' hc' => hsound.speaks_unique h c' c hc' (htold.speaks (by simp))⟩
    ok_iff := by
      rw [hresult]
      exact fun value => conclude_eq_ok_iff
    commit_failed := by
      rw [hresult]
      rintro value e hran rfl
      rw [hran]
      rfl
    unchanged_iff := by
      rw [hresult]
      rintro e hran
      rw [hran]
      exact conclude_eq_self_iff
    both_failed := by
      rw [hresult]
      rintro e e' hran rfl
      rw [hran]
      rfl
    idle_iff := by rwa [hresult]
    gone := by
      rw [hresult]
      intro hc
      rcases hfate with ⟨hreturned, hidle⟩ | ⟨-, houtside⟩
      · exact absurd hidle hc
      · exact ⟨houtside, hsound.silent s houtside⟩
    slots := by
      rw [hresult]
      exact ⟨hgiven, hbalanced⟩ }

/-- A transaction around a body is all or nothing, against every server and whatever else is
done with the pool.  It gives its slot back in every case.  If it cannot begin, its body does not
run.  A body alone is concluded as any course is, and leaves the slots as they were. -/
theorem transaction_concludes (s : Server) (n : Nat) (actions : List Action) :
    let p := (ofCapacity n).run s actions
    (∀ body : Body α, p.transaction s body = p.transactionAmid s (.ofBody body) ∧
      (p.transaction s body).2.ledger = p.ledger ∧
      ∀ (h : Handle) (p' : Pool), p.begin s = (.ok h, p') →
        ∃ c answer, Concluded s n p (.ofBody body) h p' c answer) ∧
    (∀ (course : Course α) (e : Error) (p' : Pool), p.begin s = (.error e, p') →
      p.transactionAmid s course = (.error e, p') ∧ p'.ledger = p.ledger ∧
      ∀ c, p'.history c = p.history c ∨ ∃ h reply, (∀ set, reply ≠ .result set) ∧
        p'.history c = p.history c ++ [⟨.transaction h, "BEGIN", reply⟩]) ∧
    ∀ (course : Course α) (h : Handle) (p' : Pool), p.begin s = (.ok h, p') →
      course.Spares h → ∃ c answer, Concluded s n p course h p' c answer := by
  intro p
  obtain ⟨hp, hb⟩ := run_balanced s n actions
  refine ⟨?_, ?_, ?_⟩
  · intro body
    refine ⟨transaction_eq_ofBody s body p, hp.transaction_ledger s body, ?_⟩
    exact fun h p' hbegin => hp.concluded hb hbegin (.ofBody body) (Course.spares_ofBody h body)
  · intro course e p' hbegin
    refine ⟨by rw [transactionAmid, hbegin], ?_, history_of_begin_error hbegin⟩
    have hlends := lends_begin s p
    rw [hbegin] at hlends
    cases hlends with
    | refused hl => exact hl
  · exact fun course h p' hbegin hspares => hp.concluded hb hbegin course hspares

/-- A body fails, and the pool is closed before its rollback. -/
theorem transaction_concludes_closed :
    let server := Server.scripted [⟨"UPDATE", .error "locked"⟩] []
    let course : Course Unit := .statement "UPDATE t SET a = 1" fun result =>
      .meanwhile .close fun _ => .done (result.map fun _ => ())
    let p := (ofCapacity 1).run server []
    let p' := (p.begin server).2
    p.begin server = (.ok 0, p') ∧ course.Spares 0 ∧
      (∃ c answer, Concluded server 1 p course 0 p' c answer) ∧
      (p.transactionAmid server course).1 = .error (.query (.server "locked")) ∧
      (p.transactionAmid server course).2.idle = [] := by
  intro server course p p'
  have hbegin : p.begin server = (.ok 0, p') := rfl
  have hspares : course.Spares 0 := fun result => ⟨by simp [Action.handle?], fun _ => trivial⟩
  obtain ⟨-, -, hbegun⟩ := transaction_concludes (α := Unit) server 1 []
  exact ⟨hbegin, hspares, hbegun course 0 p' hbegin hspares, rfl, by decide⟩

end Pool

end SqlCompose
