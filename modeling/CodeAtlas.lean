import CodeAtlas.ClassFile.Basic
import CodeAtlas.ClassFile.Descriptor
import CodeAtlas.Cli.Bundle
import CodeAtlas.Cli.Command
import CodeAtlas.Cli.Inspect
import CodeAtlas.Cli.Run
import CodeAtlas.Disk.Archive
import CodeAtlas.Disk.Basic
import CodeAtlas.Disk.Path
import CodeAtlas.Index.Basic
import CodeAtlas.Index.Error
import CodeAtlas.Index.Factory
import CodeAtlas.Index.Hierarchy
import CodeAtlas.Index.Prune
import CodeAtlas.Item.Attributes
import CodeAtlas.Item.Basic
import CodeAtlas.Item.Id
import CodeAtlas.Item.Kind
import CodeAtlas.Json.Printer
import CodeAtlas.Json.Token
import CodeAtlas.Json.Value
import CodeAtlas.Load.Compiled
import CodeAtlas.Load.Config
import CodeAtlas.Load.Declarations
import CodeAtlas.Load.Jobs
import CodeAtlas.Load.Manifest
import CodeAtlas.Load.Project
import CodeAtlas.Load.Task
import CodeAtlas.Load.Workspace
import CodeAtlas.LogSettings
import CodeAtlas.Main
import CodeAtlas.Proofs.Disk.Archives
import CodeAtlas.Proofs.Disk.Paths
import CodeAtlas.Proofs.Index.Ancestors
import CodeAtlas.Proofs.Index.ArrayDimensions
import CodeAtlas.Proofs.Index.Assembly
import CodeAtlas.Proofs.Index.Attributes
import CodeAtlas.Proofs.Index.Catalogue
import CodeAtlas.Proofs.Index.Changes
import CodeAtlas.Proofs.Index.Coherent
import CodeAtlas.Proofs.Index.Creation
import CodeAtlas.Proofs.Index.Durable
import CodeAtlas.Proofs.Index.Edits
import CodeAtlas.Proofs.Index.Embedding
import CodeAtlas.Proofs.Index.Enlargement
import CodeAtlas.Proofs.Index.Evolution
import CodeAtlas.Proofs.Index.Factory
import CodeAtlas.Proofs.Index.FirstFound
import CodeAtlas.Proofs.Index.ForeignHandles
import CodeAtlas.Proofs.Index.Growth
import CodeAtlas.Proofs.Index.Identity
import CodeAtlas.Proofs.Index.Layering
import CodeAtlas.Proofs.Index.MethodQueries
import CodeAtlas.Proofs.Index.Mirrors
import CodeAtlas.Proofs.Index.Numbers
import CodeAtlas.Proofs.Index.Operations
import CodeAtlas.Proofs.Index.Origins
import CodeAtlas.Proofs.Index.OuterClasses
import CodeAtlas.Proofs.Index.Paired
import CodeAtlas.Proofs.Index.PairedOperations
import CodeAtlas.Proofs.Index.QualifiedNames
import CodeAtlas.Proofs.Index.Reachable
import CodeAtlas.Proofs.Index.Refusals
import CodeAtlas.Proofs.Index.Relabel
import CodeAtlas.Proofs.Index.Robust
import CodeAtlas.Proofs.Index.Scans
import CodeAtlas.Proofs.Index.Sealing
import CodeAtlas.Proofs.Index.Signatures
import CodeAtlas.Proofs.Index.Start
import CodeAtlas.Proofs.Index.Supertypes
import CodeAtlas.Proofs.Index.TypeMatching
import CodeAtlas.Proofs.Index.Walks
import CodeAtlas.Proofs.Index.WellFormed
import CodeAtlas.Proofs.Load.ArchiveSources
import CodeAtlas.Proofs.Load.BinaryNames
import CodeAtlas.Proofs.Load.Boards
import CodeAtlas.Proofs.Load.Compiled
import CodeAtlas.Proofs.Load.Completion
import CodeAtlas.Proofs.Load.Conduct
import CodeAtlas.Proofs.Load.Declarations
import CodeAtlas.Proofs.Load.Deeds
import CodeAtlas.Proofs.Load.FirstParty
import CodeAtlas.Proofs.Load.Gates
import CodeAtlas.Proofs.Load.GluedNames
import CodeAtlas.Proofs.Load.Loaded
import CodeAtlas.Proofs.Load.Owners
import CodeAtlas.Proofs.Load.Registration
import CodeAtlas.Proofs.Load.Roster
import CodeAtlas.Proofs.Load.Schedules
import CodeAtlas.Proofs.Load.Sealed
import CodeAtlas.Proofs.Load.Sources
import CodeAtlas.Proofs.Load.Stalls
import CodeAtlas.Proofs.Load.Supplied
import CodeAtlas.Proofs.Load.Verdict
import CodeAtlas.Proofs.Load.Wrapping
import CodeAtlas.Proofs.Prune.Copies
import CodeAtlas.Proofs.Prune.Decision
import CodeAtlas.Proofs.Prune.Embedding
import CodeAtlas.Proofs.Prune.Faithful
import CodeAtlas.Proofs.Prune.FirstParty
import CodeAtlas.Proofs.Prune.Flags
import CodeAtlas.Proofs.Prune.Idempotent
import CodeAtlas.Proofs.Prune.Retained
import CodeAtlas.Proofs.Prune.Sealed
import CodeAtlas.Proofs.Prune.Search
import CodeAtlas.Proofs.Query.Agreement
import CodeAtlas.Proofs.Query.Captures
import CodeAtlas.Proofs.Query.Comments
import CodeAtlas.Proofs.Query.References
import CodeAtlas.Proofs.Query.Screening
import CodeAtlas.Proofs.Query.SkippedFiles
import CodeAtlas.Proofs.Query.SourceOrder
import CodeAtlas.Proofs.Query.Written
import CodeAtlas.Proofs.Regex.Matches
import CodeAtlas.Proofs.Regex.Reading
import CodeAtlas.Proofs.Regex.Search
import CodeAtlas.Proofs.Resolve.CallOrder
import CodeAtlas.Proofs.Resolve.CallRuns
import CodeAtlas.Proofs.Resolve.Calls
import CodeAtlas.Proofs.Resolve.Classes
import CodeAtlas.Proofs.Resolve.Dimensions
import CodeAtlas.Proofs.Resolve.Furnished
import CodeAtlas.Proofs.Resolve.Lookups
import CodeAtlas.Proofs.Resolve.Materialize
import CodeAtlas.Proofs.Resolve.NameTypes
import CodeAtlas.Proofs.Resolve.Names
import CodeAtlas.Proofs.Resolve.Parameters
import CodeAtlas.Proofs.Resolve.PseudoMethods
import CodeAtlas.Proofs.Resolve.Reads
import CodeAtlas.Proofs.Resolve.Scoping
import CodeAtlas.Proofs.Resolve.Traversal
import CodeAtlas.Proofs.Snapshot.Cycles
import CodeAtlas.Proofs.Snapshot.LineFeeds
import CodeAtlas.Proofs.Snapshot.Links
import CodeAtlas.Proofs.Snapshot.NormalForm
import CodeAtlas.Proofs.Snapshot.Parts
import CodeAtlas.Proofs.Snapshot.Reading
import CodeAtlas.Proofs.Snapshot.Relations
import CodeAtlas.Proofs.Snapshot.Restore
import CodeAtlas.Proofs.Snapshot.RoundTrip
import CodeAtlas.Proofs.Snapshot.Search
import CodeAtlas.Proofs.Snapshot.Versions
import CodeAtlas.Proofs.Source.Brackets
import CodeAtlas.Proofs.Source.Kept
import CodeAtlas.Proofs.Source.Lowering
import CodeAtlas.Proofs.Source.Preorder
import CodeAtlas.Proofs.Source.Visits
import CodeAtlas.Proofs.Tasks.Barriers
import CodeAtlas.Proofs.Tasks.Conservation
import CodeAtlas.Proofs.Tasks.Failures
import CodeAtlas.Proofs.Tasks.Invariants
import CodeAtlas.Proofs.Tasks.Levels
import CodeAtlas.Proofs.Tasks.PhaseOrder
import CodeAtlas.Proofs.Tasks.Rounds
import CodeAtlas.Proofs.Tasks.Sweeps
import CodeAtlas.Proofs.Tasks.WorkerCount
import CodeAtlas.Proofs.Text.Cuts
import CodeAtlas.Proofs.Text.Slices
import CodeAtlas.Proofs.Xml.Parts
import CodeAtlas.Proofs.Xml.Printing
import CodeAtlas.Proofs.Xml.Reading
import CodeAtlas.Query.Basic
import CodeAtlas.Query.Files
import CodeAtlas.Query.Name
import CodeAtlas.Query.ParamCount
import CodeAtlas.Query.Search
import CodeAtlas.Query.Xml
import CodeAtlas.Regex.Category
import CodeAtlas.Regex.CharClass
import CodeAtlas.Regex.Parser
import CodeAtlas.Regex.Pattern
import CodeAtlas.Regex.Program
import CodeAtlas.Regex.Property
import CodeAtlas.Resolve.Calls
import CodeAtlas.Resolve.Scope
import CodeAtlas.Resolve.Types
import CodeAtlas.Resolve.Variables
import CodeAtlas.Snapshot.Basic
import CodeAtlas.Snapshot.ItemLine
import CodeAtlas.Snapshot.Relation
import CodeAtlas.Source.Ast
import CodeAtlas.Source.CompilationUnit
import CodeAtlas.Source.Kind
import CodeAtlas.Source.Lowering
import CodeAtlas.Source.Tree
import CodeAtlas.Source.Walk
import CodeAtlas.Tasks.Basic
import CodeAtlas.Tasks.Descent
import CodeAtlas.Tasks.Run
import CodeAtlas.Tasks.Script
import CodeAtlas.Text.Blank
import CodeAtlas.Text.Decimal
import CodeAtlas.Text.Split
import CodeAtlas.Xml.Content
import CodeAtlas.Xml.Document
import CodeAtlas.Xml.Token
