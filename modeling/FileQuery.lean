import FileQuery.Main
import FileQuery.Proofs.Where.Closed
import FileQuery.Proofs.Where.Clause
import FileQuery.Proofs.Statement.Token
import FileQuery.Proofs.Where.Evaluation
import FileQuery.Proofs.Where.Cuts
import FileQuery.Proofs.Where.Quoted
import FileQuery.Proofs.Where.Routed
import FileQuery.Proofs.Statement.Grammar
import FileQuery.Proofs.Statement.Takes
import FileQuery.Proofs.Statement.RoundTrip
import FileQuery.Proofs.Store.Change
import FileQuery.Proofs.Editor
import FileQuery.Proofs.Execution.Action
import FileQuery.Proofs.Selection
import FileQuery.Proofs.Execution.Single
import FileQuery.Proofs.Execution.Folder
import FileQuery.Proofs.Execution.Returned
import FileQuery.Proofs.Execution.Frame
import FileQuery.Proofs.Execution.Proper
import FileQuery.Proofs.Execution.Refused
import FileQuery.Proofs.Execution.Tree
import FileQuery.Proofs.Execution.Aborted
import FileQuery.Proofs.Store.Writing
import FileQuery.Proofs.Execution.Selected
import FileQuery.Proofs.Execution.Written
import FileQuery.Proofs.Path
import FileQuery.Proofs.Store.Safe
import FileQuery.Proofs.Store.Sound
import FileQuery.Proofs.Store.Walk
import FileQuery.Proofs.Store.Entries
import FileQuery.Proofs.Execution.Listing
import FileQuery.Proofs.Session
import FileQuery.Proofs.Execution.Batch
import FileQuery.Proofs.Execution.Wildcard
import FileQuery.Proofs.Execution.Rules
import FileQuery.Proofs.Execution.SessionFolder
import FileQuery.Proofs.Execution.Script
import FileQuery.Proofs.Execution.Depth
import FileQuery.Proofs.Execution.Direct
import FileQuery.Proofs.Instant.Stamp
import FileQuery.Proofs.Where.ReadBack
import FileQuery.Proofs.Execution.Source
import FileQuery.Proofs.Execution.Check
import FileQuery.Proofs.Report.Csv
import FileQuery.Proofs.Execution.Report
import FileQuery.Proofs.Execution.TextFile
import FileQuery.Proofs.Execution.ScriptLines
import FileQuery.Proofs.Execution.Effects
import FileQuery.Proofs.Where.Like
import FileQuery.Proofs.Where.Layout
import FileQuery.Proofs.Execution.Ordered
import FileQuery.Proofs.Execution.Landing
import FileQuery.Proofs.Text.Decoding
import FileQuery.Proofs.Where.Dates
import FileQuery.Proofs.Where.Reports
import FileQuery.Proofs.Statement.Runnable
import FileQuery.Proofs.Where.Ceiling
import FileQuery.Proofs.Where.Comparisons
import FileQuery.Proofs.Execution.Merge
import FileQuery.Proofs.Execution.TextAdded
import FileQuery.Proofs.Editor.Kept
import FileQuery.Proofs.Editor.Saved
import FileQuery.Proofs.Table.Names
import FileQuery.Proofs.Config.Shape
import FileQuery.Proofs.Config.Addressed
import FileQuery.Proofs.Config.Order
import FileQuery.Proofs.Config.Cells
import FileQuery.Proofs.Where.Canonical
import FileQuery.Proofs.Statement.Partition
import FileQuery.Proofs.Statement.Slices
import FileQuery.Proofs.Store.Orderly
import FileQuery.Proofs.Execution.Enumerated
