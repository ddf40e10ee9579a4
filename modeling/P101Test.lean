import P101Test.Arithmetic.Checked
import P101Test.CommandContract.Budget
import P101Test.CommandContract.Law
import P101Test.CommandContract.Program
import P101Test.Conformance.Agreement
import P101Test.Conformance.Columns
import P101Test.Conformance.Evidence
import P101Test.Conformance.Expected
import P101Test.Conformance.Law
import P101Test.Conformance.Loaders
import P101Test.Conformance.Macros
import P101Test.Conformance.Order
import P101Test.Conformance.Program
import P101Test.Conformance.Receipt
import P101Test.Conformance.Reordering
import P101Test.Conformance.State
import P101Test.Conformance.Views
import P101Test.Faults.CasePaths
import P101Test.Faults.FaultLog
import P101Test.Faults.Groups
import P101Test.Faults.Isolation
import P101Test.Faults.Logs
import P101Test.Faults.Pipeline
import P101Test.Faults.PolicyReader
import P101Test.Faults.Runner
import P101Test.Faults.Walk
import P101Test.Faults.World
import P101Test.FileSystem.Basic
import P101Test.FileSystem.Calls
import P101Test.FileSystem.Naming
import P101Test.FileSystem.Path
import P101Test.FileSystem.Resolve
import P101Test.Grammar.Items
import P101Test.Json.Basic
import P101Test.Json.Reading
import P101Test.Mutation.Attribution
import P101Test.Mutation.Campaign
import P101Test.Mutation.Candidates
import P101Test.Mutation.CommandCopy
import P101Test.Mutation.CommandLine
import P101Test.Mutation.CompileCheck
import P101Test.Mutation.CompileFilter
import P101Test.Mutation.CompleteCopy
import P101Test.Mutation.CopySpec
import P101Test.Mutation.DeepRemoval
import P101Test.Mutation.EditSpec
import P101Test.Mutation.Ending
import P101Test.Mutation.Execution
import P101Test.Mutation.Files
import P101Test.Mutation.Frames
import P101Test.Mutation.GrantedMutation
import P101Test.Mutation.Heap
import P101Test.Mutation.Membership
import P101Test.Mutation.Output
import P101Test.Mutation.Redirect
import P101Test.Mutation.RemovalRun
import P101Test.Mutation.RemoveSpec
import P101Test.Mutation.Reporting
import P101Test.Mutation.ShallowRemoval
import P101Test.Mutation.SingleMutation
import P101Test.Mutation.Verdict
import P101Test.Mutation.World
import P101Test.Pointers.Slots
import P101Test.Process.WaitStatus
import P101Test.RepositoryReceipt.Grammar
import P101Test.RepositoryReceipt.Law
import P101Test.RepositoryReceipt.Program
import P101Test.Sorting.InPlace
import P101Test.Stdio.Format
import P101Test.Stdio.Lines
import P101Test.Stdio.Pieces
import P101Test.Stdio.Stream
import P101Test.Stdio.Strings
import P101Test.Table.FirstMatch
import P101Test.Table.Overwriting
import P101Test.Table.Rows
import P101Test.Table.Tally
