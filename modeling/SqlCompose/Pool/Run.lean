import SqlCompose.Pool.Transaction

/-!
# Runs of a pool

A run is a sequence of actions, each run to its end before the next begins.  No slot comes
free while a request waits for one, so it is turned away, however long it would wait.
Handles named by an action may be any; an action on a handle that holds nothing changes
nothing.
-/

namespace SqlCompose

/-- Something that a user of a pool does. -/
inductive Action where
  | get
  | begin
  | commit (h : Handle)
  | rollback (h : Handle)
  | drop (h : Handle)
  | close
  | call (target : Pool.Target) (call : Call)
  /-- A call in a transaction of a client's own. -/
  | callInside (h : Handle) (call : Call)
  /-- Calls in a transaction around them. -/
  | transaction (calls : List Call)

/-- What comes of an action. -/
inductive Outcome where
  | done
  | handed (h : Handle)
  | answered (answer : Answer)
  /-- The answers to the calls of a transaction. -/
  | completed (answers : List Answer)
  | failed (e : Error)
  deriving DecidableEq

/-- The outcome of an action that gives a result. -/
def Outcome.ofExcept {α : Type} (f : α → Outcome) : Except Error α → Outcome
  | .ok a => f a
  | .error e => .failed e

namespace Pool

/-- Takes one action. -/
def act (s : Server) (p : Pool) : Action → Outcome × Pool
  | .get => let (r, p) := p.get s; (.ofExcept .handed r, p)
  | .begin => let (r, p) := p.begin s; (.ofExcept .handed r, p)
  | .commit h => let (r, p) := p.commit s h; (.ofExcept (fun _ => .done) r, p)
  | .rollback h => let (r, p) := p.rollback s h; (.ofExcept (fun _ => .done) r, p)
  | .drop h => (.done, p.drop h)
  | .close => (.done, p.close)
  | .call target call => let (r, p) := p.call s target call; (.ofExcept .answered r, p)
  | .callInside h call => let (r, p) := p.callInside s h call; (.ofExcept .answered r, p)
  | .transaction calls =>
    let (r, p) := p.transaction s (Body.ofCalls calls)
    (.ofExcept .completed r, p)

/-- Takes actions one after the other. -/
def run (s : Server) : Pool → List Action → Pool
  | p, [] => p
  | p, action :: rest => run s (p.act s action).2 rest

end Pool

end SqlCompose
