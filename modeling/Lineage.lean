import Lineage.Annotate
import Lineage.Archive.Basic
import Lineage.Archive.Disk
import Lineage.Archive.Query
import Lineage.Assoc
import Lineage.Fault
import Lineage.Heap
import Lineage.Json.Basic
import Lineage.Json.Fields
import Lineage.Json.Numeral
import Lineage.Json.Quoted
import Lineage.Json.Read
import Lineage.Json.Token
import Lineage.Json.Write
import Lineage.Machine.Basic
import Lineage.Machine.Builtin
import Lineage.Machine.Evaluate
import Lineage.Machine.Run
import Lineage.Machine.Step
import Lineage.Number.Binary
import Lineage.Number.Decimal
import Lineage.Number.Shortest
import Lineage.Number.Text
import Lineage.Record.Basic
import Lineage.Record.Book
import Lineage.Record.Form
import Lineage.Record.Walk
import Lineage.Settings
import Lineage.Syntax.Basic
import Lineage.Syntax.Depth
import Lineage.Syntax.Error
import Lineage.Syntax.Operator
import Lineage.Syntax.Parse
import Lineage.Syntax.Reader
import Lineage.Syntax.Size
import Lineage.Text.Case
import Lineage.Text.CaseTable
import Lineage.Text.Class
import Lineage.Text.Hex
import Lineage.Text.Quoted
import Lineage.Text.Search
import Lineage.Token.Basic
import Lineage.Token.Scan
import Lineage.Tracking.Basic
import Lineage.Tracking.Properties
import Lineage.Tracking.Shelf
import Lineage.Unsupported
import Lineage.Value
import Lineage.Proofs.Annotates
import Lineage.Proofs.Contract
import Lineage.Proofs.Everywhere
import Lineage.Proofs.Parsed
import Lineage.Proofs.Session
import Lineage.Proofs.Origin.Index
import Lineage.Proofs.Origin.Log
import Lineage.Proofs.Origin.State
import Lineage.Proofs.Origin.Record
import Lineage.Proofs.Origin.Kinds
import Lineage.Proofs.Origin.Memory
import Lineage.Proofs.Origin.Natives
import Lineage.Proofs.Origin.Variables
import Lineage.Proofs.Origin.Steps
import Lineage.Proofs.Origin.Spec
import Lineage.Proofs.Origin.Evaluate
import Lineage.Proofs.Origin.Members
import Lineage.Proofs.Origin.Calls
import Lineage.Proofs.Origin.Execute
import Lineage.Proofs.Origin.Session
import Lineage.Proofs.Origin.Exact
import Lineage.Proofs.Origin.Walk
import Lineage.Proofs.Ends.Evaluate
import Lineage.Proofs.Ends.Execute
import Lineage.Proofs.Supported
import Lineage.Proofs.Scopes
import Lineage.Proofs.Logic.Basic
import Lineage.Proofs.Logic.Evaluate
import Lineage.Proofs.Logic.Execute
import Lineage.Proofs.Order.State
import Lineage.Proofs.Order.Walk
import Lineage.Proofs.Order.Session
import Lineage.Proofs.Drain.Oblivious
import Lineage.Proofs.Drain.Execution
import Lineage.Proofs.Drain.Archive
import Lineage.Proofs.Sources.Log
import Lineage.Proofs.Sources.Pure
import Lineage.Proofs.Sources.Natives
import Lineage.Proofs.Sources.State
import Lineage.Proofs.Sources.Steps
import Lineage.Proofs.Sources.Spec
import Lineage.Proofs.Sources.Evaluate
import Lineage.Proofs.Sources.Members
import Lineage.Proofs.Sources.Calls
import Lineage.Proofs.Sources.Execute
import Lineage.Proofs.Sources.Session
import Lineage.Proofs.Stored.Archive
import Lineage.Proofs.Moments.Handover
import Lineage.Proofs.Limits.Uncaught
import Lineage.Proofs.Agreement.Session
import Lineage.Proofs.Alike.Run
import Lineage.Proofs.Drain.Answers
import Lineage.Proofs.Outcomes
import Lineage.Proofs.Ends.Result
import Lineage.Proofs.Grammar.Program
import Lineage.Proofs.Untracked.Session
import Lineage.Proofs.Moments.Handler
import Lineage.Proofs.Restore.Occurrences
import Lineage.Proofs.Places.Run
import Lineage.Proofs.Origin.Appends
import Lineage.Proofs.Compound
import Lineage.Proofs.Generated
import Lineage.Proofs.Reannotate
import Lineage.Proofs.Walks
import Lineage.Proofs.Lexical.Gap
import Lineage.Proofs.Lexical.Numeral
import Lineage.Proofs.Lexical.Quotes
import Lineage.Proofs.Lexical.Spells
import Lineage.Proofs.Lexical.Tiling
import Lineage.Proofs.Lexical.Spaced
import Lineage.Proofs.Shelf.Alive
import Lineage.Proofs.Shelf.Course
import Lineage.Proofs.Lexical.Digits
import Lineage.Proofs.Lexical.Printed
import Lineage.Proofs.Elements
import Lineage.Proofs.Grammar.Blame
import Lineage.Proofs.Constants.Session
import Lineage.Proofs.Grammar.Progress
import Lineage.Proofs.Nesting.Annotated
