import YieldMachine.Build.Constraint
import YieldMachine.Build.TagLines
import YieldMachine.Command.Flags
import YieldMachine.Command.Report
import YieldMachine.Command.Run
import YieldMachine.Exchange.Adapter
import YieldMachine.Exchange.Display
import YieldMachine.Exchange.Document
import YieldMachine.Exchange.Flow
import YieldMachine.Exchange.Generated
import YieldMachine.Exchange.Json
import YieldMachine.Exchange.Source
import YieldMachine.Exchange.Table
import YieldMachine.Exchange.Tree
import YieldMachine.Exchange.Value
import YieldMachine.Flow.Basic
import YieldMachine.Flow.Escape
import YieldMachine.Flow.Statement
import YieldMachine.Generated.Comments
import YieldMachine.Generated.File
import YieldMachine.Generated.Header
import YieldMachine.Generated.Holder
import YieldMachine.Generated.Imports
import YieldMachine.Interp.Eval
import YieldMachine.Interp.Exec
import YieldMachine.Interp.Run
import YieldMachine.Interp.Value
import YieldMachine.Machine.Adapter
import YieldMachine.Machine.Bounce
import YieldMachine.Machine.Consumer
import YieldMachine.Machine.Cursor
import YieldMachine.Machine.Fault
import YieldMachine.Machine.Gallery
import YieldMachine.Machine.Script
import YieldMachine.Machine.Sequence
import YieldMachine.Machine.Supply
import YieldMachine.Main
import YieldMachine.Scheduler.Basic
import YieldMachine.Scheduler.Run
import YieldMachine.Scope.Env
import YieldMachine.Scope.Name
import YieldMachine.Scope.Target
import YieldMachine.Settings.Basic
import YieldMachine.Settings.Discovery
import YieldMachine.Settings.Environment
import YieldMachine.Settings.File
import YieldMachine.Settings.Readers
import YieldMachine.Source.Convert
import YieldMachine.Source.Erase
import YieldMachine.Source.Outline
import YieldMachine.Source.Problem
import YieldMachine.Source.Scan
import YieldMachine.Source.Tree
import YieldMachine.Source.Types
import YieldMachine.Table.Basic
import YieldMachine.Table.Lowering
import YieldMachine.Text.Case
import YieldMachine.Text.DocComment
import YieldMachine.Text.Identifier
import YieldMachine.Text.Integer
import YieldMachine.Text.Letter
import YieldMachine.Text.Literal
import YieldMachine.Text.Number
import YieldMachine.Text.Printable
import YieldMachine.Text.Quoted
import YieldMachine.Text.Space
import YieldMachine.Text.Utf8
import YieldMachine.Tree.Basic
import YieldMachine.Tree.Kind
import YieldMachine.Tree.Qualifier
import YieldMachine.Tree.Rename
import YieldMachine.Tree.Text
import YieldMachine.Tree.Token
import YieldMachine.Tree.TopLevel
import YieldMachine.Word
import YieldMachine.Yaml.Cursor
import YieldMachine.Yaml.Meaning
import YieldMachine.Yaml.Node
import YieldMachine.Yaml.Number
import YieldMachine.Yaml.Scalar
import YieldMachine.Yaml.Stream
import YieldMachine.Yaml.Token
import YieldMachine.Proofs.Meaning.Course
import YieldMachine.Proofs.Meaning.Flow
import YieldMachine.Proofs.Interp.Bounded
import YieldMachine.Proofs.Interp.Executed
import YieldMachine.Proofs.Interp.Stays
import YieldMachine.Proofs.Lowering.Closed
import YieldMachine.Proofs.Lowering.Tables
import YieldMachine.Proofs.Lowering.Total
import YieldMachine.Proofs.Meaning.Endings
import YieldMachine.Proofs.Meaning.Mirrors
import YieldMachine.Proofs.Meaning.Parts
import YieldMachine.Proofs.Meaning.Trees
import YieldMachine.Proofs.Meaning.Verbatim
import YieldMachine.Proofs.Scope.Fresh
import YieldMachine.Proofs.Simulation.Behaviour
import YieldMachine.Proofs.Simulation.Events
import YieldMachine.Proofs.Simulation.Fields
import YieldMachine.Proofs.Generated.Terminating
import YieldMachine.Proofs.Machine.Generators
import YieldMachine.Proofs.Scope.Substitution
import YieldMachine.Proofs.Simulation.Generators
import YieldMachine.Proofs.Scheduler.Sessions
import YieldMachine.Proofs.Lowering.Unresolved
import YieldMachine.Proofs.Source.Yields
import YieldMachine.Proofs.Meaning.Progress
import YieldMachine.Proofs.Meaning.Language
import YieldMachine.Proofs.Meaning.Places
import YieldMachine.Proofs.Source.Kept
import YieldMachine.Proofs.Source.Preserved
import YieldMachine.Proofs.Source.Refused
import YieldMachine.Proofs.Settings.Validity
import YieldMachine.Proofs.Build.Marked
import YieldMachine.Proofs.Scheduler.Selection
import YieldMachine.Proofs.Scheduler.Aging
import YieldMachine.Proofs.Scheduler.Rotation
import YieldMachine.Proofs.Scheduler.Passing
import YieldMachine.Proofs.Meaning.Leaving
import YieldMachine.Proofs.Interp.Validated
import YieldMachine.Proofs.Lowering.Spelled
import YieldMachine.Proofs.Scope.Redeclared
import YieldMachine.Proofs.Text.Runes
import YieldMachine.Proofs.Machine.Ranges
import YieldMachine.Proofs.Lowering.Distinct
import YieldMachine.Proofs.Source.Arrays
import YieldMachine.Proofs.Scope.Labels
import YieldMachine.Proofs.Source.Labels
import YieldMachine.Proofs.Machine.Laziness
import YieldMachine.Proofs.Machine.UpDown
import YieldMachine.Proofs.Source.Contained
import YieldMachine.Proofs.Simulation.Declarations
import YieldMachine.Proofs.Settings.Nearest
import YieldMachine.Proofs.Source.Qualifiers
import YieldMachine.Proofs.Source.Pointers
import YieldMachine.Proofs.Scope.Keys
import YieldMachine.Proofs.Lowering.Literals
import YieldMachine.Proofs.Lowering.Keyed
import YieldMachine.Proofs.Source.Literals
import YieldMachine.Proofs.Source.Keys
import YieldMachine.Proofs.Scope.Settled
import YieldMachine.Proofs.Lowering.Shared
