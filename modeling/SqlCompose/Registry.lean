import SqlCompose.Pool.Config
import SqlCompose.Pool.Run

/-!
# Named pools

A registry keeps pools by name, so that all who use a name share one pool.  A name gets
its pool from the first who asks for it, and keeps it until it is removed; a pool that
has been closed is replaced by the next who asks.  What cannot be made is not entered.

Pools themselves are numbered in the order in which they were made and are never
forgotten, because a pool that no longer has a name can still be in use.

Which texts are connection URLs is for the database driver to say.  It is asked before a
pool is made, and nothing is connected to yet.
-/

namespace SqlCompose

/-- A database driver, as a judge of connection URLs. -/
structure UrlReader where
  /-- Why a text is no connection URL, if it is none. -/
  rejection? : Text → Option Text

/-- A driver that rejects some texts, each for its reason. -/
def UrlReader.scripted (rejected : List (Text × Text)) : UrlReader where
  rejection? url := rejected.lookup url

/-- A pool with what it was made for. -/
structure SharedPool where
  engine : Engine
  url : Text
  /-- How many milliseconds a request waits for a slot; forever if unset. -/
  waitTimeoutMs : Option Nat := none
  pool : Pool

/-- The number of a pool. -/
abbrev PoolId := Nat

/-- A pool made from a configuration.  The engine is looked at before the URL. -/
def SharedPool.ofConfig (urls : UrlReader) (config : PoolConfig) : Except Error SharedPool := do
  let engine ← Engine.ofText config.engine
  match urls.rejection? config.url with
  | some reason => .error (.connection reason)
  | none =>
    return { engine, url := config.url, waitTimeoutMs := config.waitTimeoutMs,
             pool := Pool.ofCapacity config.maxSize }

/-- Every pool that has been made, and the names of those that are shared. -/
structure Registry where
  pools : List SharedPool := []
  names : List (Text × PoolId) := []

namespace Registry

/-- The pool with a number. -/
def pool? (r : Registry) (id : PoolId) : Option SharedPool := r.pools[id]?

/-- The pool under a name. -/
def lookup (r : Registry) (name : Text) : Option PoolId := r.names.lookup name

/-- Whether there is an open pool with a number. -/
def isOpen (r : Registry) (id : PoolId) : Bool :=
  match r.pool? id with
  | some shared => !shared.pool.closed
  | none => false

/-- Makes a pool without a name. -/
def create (urls : UrlReader) (config : PoolConfig) (r : Registry) :
    Except Error PoolId × Registry :=
  match SharedPool.ofConfig urls config with
  | .error e => (.error e, r)
  | .ok shared => (.ok r.pools.length, { r with pools := r.pools ++ [shared] })

/-- Names without one of them. -/
def without (name : Text) (names : List (Text × PoolId)) : List (Text × PoolId) :=
  names.filter fun entry => entry.1 != name

/-- Enters a pool under a name, in place of the one that had it. -/
def enter (name : Text) (id : PoolId) (r : Registry) : Registry :=
  { r with names := (name, id) :: without name r.names }

/-- The open pool under a name, or else a new one. -/
def init (urls : UrlReader) (name : Text) (config : PoolConfig) (r : Registry) :
    Except Error PoolId × Registry :=
  match (r.lookup name).filter r.isOpen with
  | some id => (.ok id, r)
  | none =>
    match r.create urls config with
    | (.error e, r) => (.error e, r)
    | (.ok id, r) => (.ok id, r.enter name id)

/-- Takes a name away from its pool; the pool stays as it is. -/
def remove (name : Text) (r : Registry) : Option PoolId × Registry :=
  (r.lookup name, { r with names := without name r.names })

/-- Lets something happen to a pool. -/
def act (s : Server) (id : PoolId) (action : Action) (r : Registry) :
    Option Outcome × Registry :=
  match r.pool? id with
  | none => (none, r)
  | some shared =>
    let (outcome, pool) := shared.pool.act s action
    (some outcome, { r with pools := r.pools.set id { shared with pool } })

end Registry

end SqlCompose
