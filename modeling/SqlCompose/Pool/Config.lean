import SqlCompose.Error
import SqlCompose.Json.Basic

/-!
# Pool configuration

What a pool is made from: an engine, a connection URL, a number of slots and a time limit
for waiting.  A configuration is read from JSON, from an object or from an array of its
values in order; what is missing takes its default.
-/

namespace SqlCompose

/-- The database engines that a pool can connect to. -/
inductive Engine where
  | postgres
  deriving DecidableEq

namespace Engine

/-- The name of an engine. -/
def name : Engine → Text
  | postgres => "postgres"

/-- The engine that a text names, in either case and between blanks. -/
def ofText (t : Text) : Except Error Engine :=
  let name := t.trim.lower
  if name = lit "postgres" ∨ name = lit "postgresql" ∨ name = lit "pg" then .ok postgres
  else .error (.unsupportedEngine t)

end Engine

/-- The configuration of a pool. -/
structure PoolConfig where
  engine : Text := Engine.postgres.name
  url : Text := []
  maxSize : Nat := 16
  /-- How many milliseconds a request waits for a slot; forever if unset. -/
  waitTimeoutMs : Option Nat := none
  deriving DecidableEq

namespace PoolConfig

/-- The configuration for a URL, all else by default. -/
def ofUrl (url : Text) : PoolConfig := { url }

/-- The configuration with a time limit of seconds and nanoseconds, in whole
milliseconds and at most those of a 64-bit word. -/
def withWaitTimeout (c : PoolConfig) (seconds nanos : Nat) : PoolConfig :=
  { c with waitTimeoutMs := some (min (seconds * 1000 + nanos / 1000000) (UInt64.size - 1)) }

/-- The time limit in seconds and milliseconds. -/
def waitTimeout (c : PoolConfig) : Option (Nat × Nat) :=
  c.waitTimeoutMs.map fun ms => (ms / 1000, ms % 1000)

/-! ## Reading -/

open Json (Node Piece spell)

/-- A string. -/
def textOf? : Node → Option Text
  | .text pieces => spell pieces
  | _ => none

/-- A non-negative integer of a 64-bit word. -/
def wordOf? : Node → Option Nat
  | .number n => n.toInt?.bind fun i => if 0 ≤ i then some i.toNat else none
  | _ => none

/-- A non-negative integer, or null for none. -/
def optionalWordOf? : Node → Option (Option Nat)
  | .null => some none
  | node => (wordOf? node).map some

/-- The parts of a configuration that have been read. -/
structure Draft where
  engine : Option Text := none
  url : Option Text := none
  maxSize : Option Nat := none
  waitTimeoutMs : Option (Option Nat) := none

/-- The configuration of a draft, with defaults for what it lacks. -/
def Draft.complete (d : Draft) : PoolConfig :=
  let fallback : PoolConfig := {}
  { engine := d.engine.getD fallback.engine
    url := d.url.getD fallback.url
    maxSize := d.maxSize.getD fallback.maxSize
    waitTimeoutMs := d.waitTimeoutMs.getD fallback.waitTimeoutMs }

/-- Reads a part that has not been read before. -/
def readOnce {α : Type} (before : Option α) (value : Option α) : Option (Option α) :=
  if before.isSome then none else value.map some

/-- Reads a member of an object.  A key that means nothing here is skipped with its
value. -/
def Draft.readMember (d : Draft) (member : List Piece × Node) : Option Draft := do
  let key ← spell member.1
  if key = lit "engine" then
    return { d with engine := ← readOnce d.engine (textOf? member.2) }
  else if key = lit "url" then
    return { d with url := ← readOnce d.url (textOf? member.2) }
  else if key = lit "max_size" then
    return { d with maxSize := ← readOnce d.maxSize (wordOf? member.2) }
  else if key = lit "wait_timeout_ms" then
    return { d with waitTimeoutMs := ← readOnce d.waitTimeoutMs (optionalWordOf? member.2) }
  else return d

/-- Reads the values of an array in order. -/
def Draft.ofItems? : List Node → Option Draft
  | [] => some {}
  | [engine] => do
    return { engine := ← textOf? engine }
  | [engine, url] => do
    return { engine := ← textOf? engine, url := ← textOf? url }
  | [engine, url, maxSize] => do
    return { engine := ← textOf? engine, url := ← textOf? url, maxSize := ← wordOf? maxSize }
  | [engine, url, maxSize, waitTimeoutMs] => do
    return { engine := ← textOf? engine, url := ← textOf? url, maxSize := ← wordOf? maxSize,
             waitTimeoutMs := ← optionalWordOf? waitTimeoutMs }
  | _ => none

/-- The configuration that a JSON text describes, if it does. -/
def parse? (t : Text) : Option PoolConfig := do
  match ← Node.parse? t with
  | .object members => return (← members.foldlM Draft.readMember {}).complete
  | .array items => return (← Draft.ofItems? items).complete
  | _ => none

end PoolConfig

end SqlCompose
