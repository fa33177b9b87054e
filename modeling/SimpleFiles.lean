import SimpleFiles.Check
import SimpleFiles.Check.Issue
import SimpleFiles.CommandLine
import SimpleFiles.CommandLine.Arguments
import SimpleFiles.Config
import SimpleFiles.Config.Format
import SimpleFiles.DateTime
import SimpleFiles.EnvFile
import SimpleFiles.Evaluation
import SimpleFiles.Execution
import SimpleFiles.Execution.Create
import SimpleFiles.Execution.Error
import SimpleFiles.Execution.Group
import SimpleFiles.Execution.Rename
import SimpleFiles.FileName
import SimpleFiles.FileSystem
import SimpleFiles.FileSystem.Resolve
import SimpleFiles.FileTree
import SimpleFiles.FileTree.Changes
import SimpleFiles.Filter
import SimpleFiles.Filter.DateRange
import SimpleFiles.Filter.Error
import SimpleFiles.Filter.Pattern
import SimpleFiles.Filter.PropertyNames
import SimpleFiles.Filter.SizeBound
import SimpleFiles.Interpreter
import SimpleFiles.Json
import SimpleFiles.Json.Reader
import SimpleFiles.Main
import SimpleFiles.Memory
import SimpleFiles.NameTable
import SimpleFiles.NameTemplate
import SimpleFiles.Parameters
import SimpleFiles.Path
import SimpleFiles.Program
import SimpleFiles.Program.Action
import SimpleFiles.Program.Json
import SimpleFiles.Program.Reference
import SimpleFiles.Program.Span
import SimpleFiles.Proofs.Check.Acceptance
import SimpleFiles.Proofs.Check.Causality
import SimpleFiles.Proofs.Check.Display
import SimpleFiles.Proofs.Check.Findings
import SimpleFiles.Proofs.Check.Ordering
import SimpleFiles.Proofs.Check.Reports
import SimpleFiles.Proofs.Check.Soundness
import SimpleFiles.Proofs.Check.Strictness
import SimpleFiles.Proofs.CommandLine.Gating
import SimpleFiles.Proofs.Config.Layers
import SimpleFiles.Proofs.Create.Adding
import SimpleFiles.Proofs.Create.Confinement
import SimpleFiles.Proofs.Create.NameFiles
import SimpleFiles.Proofs.Create.Repeating
import SimpleFiles.Proofs.EnvFile
import SimpleFiles.Proofs.Evaluation.Composition
import SimpleFiles.Proofs.Evaluation.Confinement
import SimpleFiles.Proofs.Evaluation.References
import SimpleFiles.Proofs.Evaluation.Reports
import SimpleFiles.Proofs.Evaluation.Results
import SimpleFiles.Proofs.Execution.Changes
import SimpleFiles.Proofs.Execution.Dependence
import SimpleFiles.Proofs.Execution.Effects
import SimpleFiles.Proofs.Execution.GivenPaths
import SimpleFiles.Proofs.Execution.Merging
import SimpleFiles.Proofs.Execution.Parameters
import SimpleFiles.Proofs.Execution.Refusals
import SimpleFiles.Proofs.Execution.Results
import SimpleFiles.Proofs.FileName
import SimpleFiles.Proofs.FileName.Extension
import SimpleFiles.Proofs.FileSystem
import SimpleFiles.Proofs.FileSystem.Calls
import SimpleFiles.Proofs.FileSystem.Changes
import SimpleFiles.Proofs.FileSystem.Confinement
import SimpleFiles.Proofs.FileSystem.Delivery
import SimpleFiles.Proofs.FileSystem.Directories
import SimpleFiles.Proofs.FileSystem.Displacing
import SimpleFiles.Proofs.FileSystem.Ending
import SimpleFiles.Proofs.FileSystem.Growth
import SimpleFiles.Proofs.FileSystem.Holding
import SimpleFiles.Proofs.FileSystem.Leading
import SimpleFiles.Proofs.FileSystem.Making
import SimpleFiles.Proofs.FileSystem.Renaming
import SimpleFiles.Proofs.FileTree.Entries
import SimpleFiles.Proofs.FileTree.Growth
import SimpleFiles.Proofs.FileTree.Lookup
import SimpleFiles.Proofs.FileTree.Nodes
import SimpleFiles.Proofs.FileTree.Placing
import SimpleFiles.Proofs.FileTree.Relabelling
import SimpleFiles.Proofs.FileTree.Walking
import SimpleFiles.Proofs.FileTree.Ways
import SimpleFiles.Proofs.Filter
import SimpleFiles.Proofs.Filter.Composition
import SimpleFiles.Proofs.Filter.DateRange
import SimpleFiles.Proofs.Filter.SizeBound
import SimpleFiles.Proofs.Group.Accounting
import SimpleFiles.Proofs.Group.Batch
import SimpleFiles.Proofs.Group.Confinement
import SimpleFiles.Proofs.Group.Copying
import SimpleFiles.Proofs.Group.Destination
import SimpleFiles.Proofs.Group.Files
import SimpleFiles.Proofs.Group.FromDirectory
import SimpleFiles.Proofs.Group.Modes
import SimpleFiles.Proofs.Group.Recording
import SimpleFiles.Proofs.Group.Repeating
import SimpleFiles.Proofs.Group.Transferring
import SimpleFiles.Proofs.Json.Reading
import SimpleFiles.Proofs.Memory.AliasStore
import SimpleFiles.Proofs.Memory.Aliases
import SimpleFiles.Proofs.Memory.Refinement
import SimpleFiles.Proofs.Memory.Tidiness
import SimpleFiles.Proofs.NameTemplate
import SimpleFiles.Proofs.NameTemplate.Numbering
import SimpleFiles.Proofs.NameTemplate.Spelling
import SimpleFiles.Proofs.Path
import SimpleFiles.Proofs.Path.Components
import SimpleFiles.Proofs.Path.Extending
import SimpleFiles.Proofs.Path.Joining
import SimpleFiles.Proofs.Path.Relative
import SimpleFiles.Proofs.Path.Steps
import SimpleFiles.Proofs.Program.Json
import SimpleFiles.Proofs.Program.Keywords
import SimpleFiles.Proofs.Program.Reference
import SimpleFiles.Proofs.Rename.Batch
import SimpleFiles.Proofs.Rename.Confinement
import SimpleFiles.Proofs.Rename.Keeping
import SimpleFiles.Proofs.Rename.Names
import SimpleFiles.Proofs.Rename.Order
import SimpleFiles.Proofs.Rename.Recursive
import SimpleFiles.Proofs.Rename.Repeating
import SimpleFiles.Proofs.Rename.Settling
import SimpleFiles.Proofs.Source.Building
import SimpleFiles.Proofs.Source.Faults
import SimpleFiles.Proofs.Source.Merging
import SimpleFiles.Proofs.Source.Mirroring
import SimpleFiles.Proofs.Source.Places
import SimpleFiles.Proofs.Source.Programs
import SimpleFiles.Proofs.Source.Reading
import SimpleFiles.Proofs.Source.Rendering
import SimpleFiles.Proofs.Source.Spans
import SimpleFiles.Proofs.Source.Statements
import SimpleFiles.Proofs.Source.Trees
import SimpleFiles.Proofs.Text.Blank
import SimpleFiles.Proofs.Text.Case
import SimpleFiles.Proofs.Text.Integer
import SimpleFiles.Proofs.Text.Words
import SimpleFiles.Source
import SimpleFiles.Source.Attempts
import SimpleFiles.Source.Building
import SimpleFiles.Source.Cursor
import SimpleFiles.Source.Grammar
import SimpleFiles.Source.Parser
import SimpleFiles.Source.Phrase
import SimpleFiles.Text.Blank
import SimpleFiles.Text.Bytes
import SimpleFiles.Text.Case
import SimpleFiles.Text.CaseTable
import SimpleFiles.Text.Float
import SimpleFiles.Text.Integer
import SimpleFiles.Text.LetterTable
import SimpleFiles.Text.Ranges
import SimpleFiles.Toml.Reader
import SimpleFiles.Toml.Value
import SimpleFiles.Toml.Writer
import SimpleFiles.Word
