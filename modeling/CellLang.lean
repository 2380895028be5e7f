import CellLang.Number.Binary64
import CellLang.Number.Arithmetic
import CellLang.Number.Decimal
import CellLang.Number.Shortest
import CellLang.Number.Layout
import CellLang.Text.Blank
import CellLang.Text.BreakClass
import CellLang.Text.Cluster
import CellLang.Text.Backspace
import CellLang.Source.Span
import CellLang.Source.Token
import CellLang.Source.Form
import CellLang.Program.Basic
import CellLang.Program.Reading
import CellLang.Json.Basic
import CellLang.Json.Reader
import CellLang.Program.Tree
import CellLang.Machine.Value
import CellLang.Machine.Fault
import CellLang.Machine.Store
import CellLang.Machine.Pointer
import CellLang.Machine.Environment
import CellLang.Machine.Primitive
import CellLang.Machine.Evaluation
import CellLang.Machine.Execution
import CellLang.Settings.Toml
import CellLang.Settings.Basic
import CellLang.Session
import CellLang.Source.Place
import CellLang.Diagnostic
import CellLang.CommandLine.Command
import CellLang.CommandLine.Prompt
import CellLang.CommandLine.Perform
import CellLang.Main
import CellLang.Proofs.Interpretation
import CellLang.Proofs.History
import CellLang.Proofs.Counting
import CellLang.Proofs.Discipline
import CellLang.Proofs.Environment
import CellLang.Proofs.Frames
import CellLang.Proofs.Store
import CellLang.Proofs.Ledger
import CellLang.Proofs.Sizes
import CellLang.Proofs.Chain
import CellLang.Proofs.Reclamation
import CellLang.Proofs.Packing
import CellLang.Proofs.Coupling
import CellLang.Proofs.Rounding
import CellLang.Proofs.Capacity
import CellLang.Proofs.Lines
import CellLang.Proofs.Alpha
import CellLang.Proofs.Renaming
import CellLang.Proofs.Growth
import CellLang.Proofs.Globals
import CellLang.Proofs.Weakening
import CellLang.Proofs.Executor
import CellLang.Proofs.Additions
import CellLang.Proofs.Timeline
import CellLang.Proofs.Spelling
import CellLang.Proofs.Numerals
import CellLang.Proofs.Grammar
import CellLang.Proofs.RoundTrip
import CellLang.Proofs.Shifting
import CellLang.Proofs.Joining
import CellLang.Proofs.FirstFit
import CellLang.Proofs.Linkage
import CellLang.Proofs.Stepping
import CellLang.Proofs.Integers
import CellLang.Proofs.Movement
import CellLang.Proofs.Balance
import CellLang.Proofs.Arrangement
import CellLang.Proofs.Acceptance
import CellLang.Proofs.Slices
import CellLang.Proofs.Reports
import CellLang.Proofs.Scopes
import CellLang.Proofs.JsonText
import CellLang.Proofs.TreeNumerals
import CellLang.Proofs.Trees
