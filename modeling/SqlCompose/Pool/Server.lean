import SqlCompose.Text.Basic

/-!
# Servers

What a pool knows of a database server: whether it admits a connection, and what it
replies to a statement.  Both may depend on everything that happened before, so a
statement about every `Server` covers every behaviour that a real one can show.
-/

namespace SqlCompose

/-- The number of a connection, counted over the attempts to open one. -/
abbrev Connection := Nat

/-- The number of a client or transaction that a pool has handed out. -/
abbrev Handle := Nat

/-- A cell of a row. -/
inductive Cell where
  | null
  | text (t : Text)
  | integer (n : Int64)
  deriving DecidableEq

/-- What a statement gives: rows with the types of their columns, and a number of affected
rows. -/
structure ResultSet where
  columns : List Text := []
  rows : List (List Cell) := []
  affected : Nat := 0
  deriving DecidableEq

/-- A server's reply to a statement. -/
inductive Reply where
  | result (set : ResultSet)
  | error (message : Text)
  /-- The server closes the connection without a word. -/
  | hangup
  deriving DecidableEq

/-- A server's reply to a request for a connection. -/
inductive Admission where
  | accepted
  | refused (message : Text)
  /-- There is nobody to reply. -/
  | unreachable
  deriving DecidableEq

/-- On whose behalf a statement is issued. -/
inductive Speaker where
  /-- A single statement of the pool itself. -/
  | pool
  | client (h : Handle)
  | transaction (h : Handle)
  deriving DecidableEq

/-- What happens on connections. -/
inductive Event where
  | opened (c : Connection)
  /-- A statement reached the server, which gave a reply. -/
  | issued (c : Connection) (speaker : Speaker) (sql : Text) (reply : Reply)
  | closed (c : Connection)
  deriving DecidableEq

/-- A server, as a function of all events so far. -/
structure Server where
  admission : List Event → Connection → Admission
  reply : List Event → Connection → Text → Reply

namespace Server

/-- No server at all. -/
def unreachable : Server := ⟨fun _ _ => .unreachable, fun _ _ _ => .hangup⟩

/-- How a scripted server replies to the statements that start in a certain way. -/
structure Rule where
  start : Text
  reply : Reply

/-- A server with a script: the first rule whose start a statement has gives the reply,
and any other statement has an empty result.  Some connections may be refused. -/
def scripted (rules : List Rule) (refused : List Connection) : Server where
  admission _ c := if c ∈ refused then .refused "connection refused" else .accepted
  reply _ _ sql :=
    match rules.find? fun rule => rule.start.isPrefixOf sql with
    | some rule => rule.reply
    | none => .result {}

end Server

end SqlCompose
