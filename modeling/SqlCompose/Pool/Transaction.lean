import SqlCompose.Call.Basic
import SqlCompose.Pool.Basic

/-!
# Calls and transactions on a pool

A call whose plan is an error leaves the pool as it is; any other issues one statement.

A `Body` is what runs inside a transaction: statements whose choice may depend on the
results before them, and at last a value or an error.  `Pool.transaction` commits after a
value and rolls back after an error.
-/

namespace SqlCompose

/-- What runs inside a transaction. -/
inductive Body (α : Type) where
  | done (result : Except Error α)
  | statement (sql : Text) (next : Except Error ResultSet → Body α)

namespace Body

/-- The body with its value changed at the end. -/
def map {α β : Type} (f : α → β) : Body α → Body β
  | done result => done (result.map f)
  | statement sql next => statement sql fun result => (next result).map f

/-- Calls one after the other, up to the first that fails. -/
def ofCalls : List Call → Body (List Answer)
  | [] => done (.ok [])
  | call :: rest =>
    match call.plan with
    | .error e => done (.error e)
    | .ok plan => statement plan.sql fun result =>
      match result.bind plan.read with
      | .error e => done (.error e)
      | .ok answer => (ofCalls rest).map (answer :: ·)

/-- Runs a body on the connection of a handle. -/
def run {α : Type} (s : Server) (h : Handle) : Body α → Pool → Except Error α × Pool
  | done result, p => (result, p)
  | statement sql next, p =>
    let (result, p) := p.statement s (.handle h) sql
    run s h (next result) p

end Body

namespace Pool

/-- Makes a call. -/
def call (s : Server) (target : Target) (call : Call) (p : Pool) : Except Error Answer × Pool :=
  match call.plan with
  | .error e => (.error e, p)
  | .ok plan =>
    let (result, p) := p.statement s target plan.sql
    (result.bind plan.read, p)

/-- The error of a body together with that of the rollback after it. -/
def rollbackFailed (e rollbackError : Error) : Error :=
  .other (e.message ++ " (rollback failed: " ++ rollbackError.message ++ ")")

/-- Runs a body inside a transaction of its own. -/
def transaction {α : Type} (s : Server) (body : Body α) (p : Pool) : Except Error α × Pool :=
  match p.begin s with
  | (.error e, p) => (.error e, p)
  | (.ok h, p) =>
    match body.run s h p with
    | (.ok value, p) =>
      match p.commit s h with
      | (.ok _, p) => (.ok value, p)
      | (.error e, p) => (.error e, p)
    | (.error e, p) =>
      match p.rollback s h with
      | (.ok _, p) => (.error e, p)
      | (.error e', p) => (.error (rollbackFailed e e'), p)

/-- Makes a call on a client's connection inside a transaction that lasts as long as the
call.  The client keeps its connection whatever happens. -/
def callInside (s : Server) (h : Handle) (call : Call) (p : Pool) :
    Except Error Answer × Pool :=
  match p.statement s (.handle h) "START TRANSACTION" with
  | (.error e, p) => (.error e, (p.statement s (.handle h) "ROLLBACK").2)
  | (.ok _, p) =>
    match p.call s (.handle h) call with
    | (.ok answer, p) =>
      match p.statement s (.handle h) "COMMIT" with
      | (.ok _, p) => (.ok answer, p)
      | (.error e, p) => (.error e, p)
    | (.error e, p) => (.error e, (p.statement s (.handle h) "ROLLBACK").2)

end Pool

end SqlCompose
