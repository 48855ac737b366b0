import SqlCompose.Proofs.Algebra.Narrowing
import SqlCompose.Proofs.Arity.Payloads
import SqlCompose.Proofs.Faults
import SqlCompose.Proofs.Grammar.Conditions
import SqlCompose.Proofs.Injection.Statements
import SqlCompose.Proofs.JoinScope
import SqlCompose.Proofs.OperandList
import SqlCompose.Proofs.Outline.Queries
import SqlCompose.Proofs.Pool.Accounts
import SqlCompose.Proofs.Pool.Conclusion
import SqlCompose.Proofs.Registry.Closing
import SqlCompose.Proofs.Registry.Names
import SqlCompose.Proofs.Union.Branches
import SqlCompose.Value.OfJson
import SqlCompose.Proofs.Arity.NamedRows
import SqlCompose.Proofs.Reading.Setting
import SqlCompose.Proofs.Filter.Leaves
import SqlCompose.Proofs.Filter.Commands
import SqlCompose.Proofs.Filter.Paths
import SqlCompose.Proofs.Position
import SqlCompose.Proofs.Window
import SqlCompose.Proofs.Reading.Bytes
import SqlCompose.Value.OfInteger
import SqlCompose.Proofs.Integers
import SqlCompose.Proofs.Padding
import SqlCompose.Proofs.RowCount.Leading
import SqlCompose.Proofs.Calendar
import SqlCompose.Proofs.Projection
