import SqlCompose.Clause.Table
import SqlCompose.Text.Digits

/-!
# Errors

What can go wrong between a statement and its rows, with one text for each cause.
-/

namespace SqlCompose

/-- Why a statement that reached a connection gave no answer. -/
inductive QueryFailure where
  /-- The server reported an error. -/
  | server (message : Text)
  /-- The connection is closed. -/
  | connectionClosed
  /-- There is no server to connect to. -/
  | unreachable
  /-- The column has another type than the one asked for, or holds a null. -/
  | unreadableColumn (index : Nat)
  /-- The row has no such column. -/
  | noColumn (index : Nat)
  deriving DecidableEq

namespace QueryFailure

/-- The text of the failure; what the server said is not part of it. -/
def message : QueryFailure → Text
  | server _ => "db error"
  | connectionClosed => "connection closed"
  | unreachable => "error connecting to server"
  | unreadableColumn index => "error deserializing column " ++ Text.ofNat index
  | noColumn index => "invalid column `" ++ Text.ofNat index ++ "`"

/-- What the server said, if it was the server that failed. -/
def serverMessage? : QueryFailure → Option Text
  | server message => some message
  | _ => none

end QueryFailure

/-- An error of the library. -/
inductive Error where
  | table (cause : TableError)
  | unsupportedEngine (name : Text)
  | poolClosed
  | connection (text : Text)
  | query (cause : QueryFailure)
  | notFound (text : Text)
  | pool (text : Text)
  | other (text : Text)
  deriving DecidableEq

/-- The text of a table error. -/
def TableError.message : TableError → Text
  | invalidName => "invalid table name"
  | missingEntry => "no table entry in aliased table reference"

namespace Error

/-- The text of an error. -/
def message : Error → Text
  | table cause => cause.message
  | unsupportedEngine name => "unsupported database engine: " ++ name
  | poolClosed => "pool is closed"
  | connection text => "Connection error: " ++ text
  | query cause => "Query error: " ++ cause.message
  | notFound text => "Not found: " ++ text
  | pool text => "Pool error: " ++ text
  | other text => text

/-- Whether the error says that the pool is closed. -/
def isPoolClosed : Error → Bool
  | poolClosed => true
  | _ => false

/-- Whether the error comes from a table reference. -/
def isTableError : Error → Bool
  | table _ => true
  | _ => false

end Error

end SqlCompose
