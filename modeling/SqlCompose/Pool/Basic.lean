import SqlCompose.Error
import SqlCompose.Pool.Server

/-!
# Connection pools

A pool lends connections and takes them back.  It has a number of slots; a request needs
a free one, and takes the connection that has been idle longest or opens a new one.  What
is lent is held by a client or by a transaction, or for the length of one statement by
the pool itself.

A transaction owns its connection until it is committed or rolled back.  Only when that
succeeds does the connection go back to the pool.  Where it fails, or the transaction is
dropped, the state of the session is not known, and the connection is closed instead.

A closed pool stays closed.  Its idle connections are closed with it, and those still
held are closed when they come back.
-/

namespace SqlCompose

/-- What a handle holds. -/
inductive Holding where
  | client (c : Connection)
  | transaction (c : Connection)
  deriving DecidableEq

/-- The connection of a holding. -/
def Holding.connection : Holding → Connection
  | client c => c
  | transaction c => c

/-- A pool with everything that has happened on its connections. -/
structure Pool where
  /-- The number of slots; a closed pool has none. -/
  capacity : Nat
  closed : Bool := false
  freeSlots : Nat := capacity
  /-- The number of connections that are idle or lent. -/
  size : Nat := 0
  /-- Idle connections, the one that has been idle longest first. -/
  idle : List Connection := []
  /-- Connections that the server has closed. -/
  broken : List Connection := []
  /-- The number of attempts to open a connection. -/
  attempts : Nat := 0
  /-- The number of handles given so far. -/
  handles : Handle := 0
  held : List (Handle × Holding) := []
  log : List Event := []

namespace Pool

/-- A pool that has not opened anything. -/
def ofCapacity (capacity : Nat) : Pool := { capacity }

/-- Notes an event. -/
def record (p : Pool) (e : Event) : Pool := { p with log := p.log ++ [e] }

/-- Closes a connection, unless the server has done so before. -/
def disconnect (p : Pool) (c : Connection) : Pool :=
  if c ∈ p.broken then p else p.record (.closed c)

/-! ## Lending -/

/-- What a request hears that finds every slot taken. -/
def timeout : Error := .pool "Timeout occurred while waiting for a slot to become available"

/-- Forgets the broken connections at the head of the idle ones. -/
def discardBroken (p : Pool) : Pool :=
  let isBroken c := decide (c ∈ p.broken)
  { p with
    idle := p.idle.dropWhile isBroken
    size := p.size - (p.idle.takeWhile isBroken).length }

/-- Opens a connection in a slot. -/
def openConnection (s : Server) (p : Pool) : Except Error Connection × Pool :=
  let c := p.attempts + 1
  let p := { p with attempts := c }
  match s.admission p.log c with
  | .accepted =>
    (.ok c, { p.record (.opened c) with size := p.size + 1, freeSlots := p.freeSlots - 1 })
  | .refused message => (.error (.query (.server message)), p.record (.closed c))
  | .unreachable => (.error (.query .unreachable), p)

/-- Takes a connection out of the pool, an idle one that is not known to be broken or a
new one. -/
def acquire (s : Server) (p : Pool) : Except Error Connection × Pool :=
  if p.closed then (.error .poolClosed, p)
  else if p.freeSlots = 0 then (.error timeout, p)
  else
    let p := p.discardBroken
    match p.idle with
    | c :: rest => (.ok c, { p with idle := rest, freeSlots := p.freeSlots - 1 })
    | [] => p.openConnection s

/-- Takes a connection back, as the last of the idle ones.  A closed pool keeps none. -/
def release (p : Pool) (c : Connection) : Pool :=
  let p := { p with freeSlots := p.freeSlots + 1 }
  if p.closed then { p with size := p.size - 1 }.disconnect c
  else { p with idle := p.idle ++ [c] }

/-- Gives up a connection that was lent: it does not come back, and its slot is free. -/
def detach (p : Pool) (c : Connection) : Pool :=
  { p with freeSlots := p.freeSlots + 1, size := p.size - 1 }.disconnect c

/-- Closes the pool. -/
def close (p : Pool) : Pool :=
  p.idle.foldl disconnect
    { p with capacity := 0, closed := true, idle := [], size := p.size - p.idle.length }

/-! ## Statements -/

/-- Issues a statement on a connection. -/
def issue (s : Server) (speaker : Speaker) (c : Connection) (sql : Text) (p : Pool) :
    Except QueryFailure ResultSet × Pool :=
  if c ∈ p.broken then (.error .connectionClosed, p)
  else
    let reply := s.reply p.log c sql
    let p := p.record (.issued c speaker sql reply)
    match reply with
    | .result set => (.ok set, p)
    | .error message => (.error (.server message), p)
    | .hangup => (.error .connectionClosed, { p.record (.closed c) with broken := c :: p.broken })

/-! ## Handles -/

/-- The next handle, which no later request gets. -/
def nextHandle (p : Pool) : Handle × Pool := (p.handles, { p with handles := p.handles + 1 })

/-- Enters what a handle holds. -/
def hold (p : Pool) (h : Handle) (holding : Holding) : Pool :=
  { p with held := p.held ++ [(h, holding)] }

/-- Strikes out a handle. -/
def forget (p : Pool) (h : Handle) : Pool :=
  { p with held := p.held.filter fun entry => entry.1 != h }

/-- What a handle holds, if it has not been given back. -/
def holding? (p : Pool) (h : Handle) : Option Holding := p.held.lookup h

/-- What a call hears whose handle holds nothing. -/
def finished : Error := .other "transaction already finished"

/-- Lends a connection to a client. -/
def get (s : Server) (p : Pool) : Except Error Handle × Pool :=
  match p.acquire s with
  | (.error e, p) => (.error e, p)
  | (.ok c, p) =>
    let (h, p) := p.nextHandle
    (.ok h, p.hold h (.client c))

/-- Begins a transaction on a connection of its own.  Where that fails, the connection
has not begun anything and goes back to the pool. -/
def begin (s : Server) (p : Pool) : Except Error Handle × Pool :=
  match p.acquire s with
  | (.error e, p) => (.error e, p)
  | (.ok c, p) =>
    let (h, p) := p.nextHandle
    match p.issue s (.transaction h) c "BEGIN" with
    | (.ok _, p) => (.ok h, p.hold h (.transaction c))
    | (.error e, p) => (.error (.query e), p.release c)

/-- Ends a transaction with a statement. -/
def finish (s : Server) (sql : Text) (h : Handle) (p : Pool) : Except Error Unit × Pool :=
  match p.holding? h with
  | some (.transaction c) =>
    match (p.forget h).issue s (.transaction h) c sql with
    | (.ok _, p) => (.ok (), p.release c)
    | (.error e, p) => (.error (.query e), p.detach c)
  | _ => (.error finished, p)

/-- Commits a transaction. -/
def commit (s : Server) (h : Handle) (p : Pool) : Except Error Unit × Pool :=
  p.finish s "COMMIT" h

/-- Rolls a transaction back. -/
def rollback (s : Server) (h : Handle) (p : Pool) : Except Error Unit × Pool :=
  p.finish s "ROLLBACK" h

/-- Gives up a handle: a client's connection goes back to the pool, and that of an
unfinished transaction is closed. -/
def drop (h : Handle) (p : Pool) : Pool :=
  match p.holding? h with
  | some (.client c) => (p.forget h).release c
  | some (.transaction c) => (p.forget h).detach c
  | none => p

/-- Who issues a statement: the pool itself, or the holder of a handle. -/
inductive Target where
  | pool
  | handle (h : Handle)
  deriving DecidableEq

/-- Issues one statement.  On the pool itself a connection is lent for it, and taken back
whatever the reply was. -/
def statement (s : Server) (target : Target) (sql : Text) (p : Pool) :
    Except Error ResultSet × Pool :=
  match target with
  | .pool =>
    match p.acquire s with
    | (.error e, p) => (.error e, p)
    | (.ok c, p) =>
      let (result, p) := p.issue s .pool c sql
      (result.mapError .query, p.release c)
  | .handle h =>
    match p.holding? h with
    | some (.client c) =>
      let (result, p) := p.issue s (.client h) c sql
      (result.mapError .query, p)
    | some (.transaction c) =>
      let (result, p) := p.issue s (.transaction h) c sql
      (result.mapError .query, p)
    | none => (.error finished, p)

end Pool

end SqlCompose
