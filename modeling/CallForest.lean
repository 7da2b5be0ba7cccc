import CallForest.Analysis
import CallForest.AnnotationUse
import CallForest.Assembly
import CallForest.BuildDescriptor
import CallForest.CallIndex
import CallForest.CallTree
import CallForest.ChangeSet
import CallForest.ClassFile.AnnotationTable
import CallForest.ClassFile.Bootstrap
import CallForest.ClassFile.ClassSpec
import CallForest.ClassFile.Code
import CallForest.ClassFile.Constant
import CallForest.ClassFile.ConstantPool
import CallForest.ClassFile.Cursor
import CallForest.ClassFile.Emission
import CallForest.ClassFile.Fault
import CallForest.ClassFile.Instruction
import CallForest.ClassFile.ParsedClass
import CallForest.ClassFile.PoolBuilder
import CallForest.ClassFile.Word
import CallForest.Command.LogFilter
import CallForest.Command.Options
import CallForest.Command.Run
import CallForest.CycleGuard
import CallForest.Decimal.Shortest
import CallForest.EntryPoint
import CallForest.Exclusion
import CallForest.FileTree
import CallForest.Glob.Nesting
import CallForest.Glob.Parser
import CallForest.Glob.Pattern
import CallForest.Host
import CallForest.Json.Basic
import CallForest.Json.Parser
import CallForest.Json.Printer
import CallForest.Main
import CallForest.MappingPath
import CallForest.Markup.Reference
import CallForest.Markup.Token
import CallForest.Method.Descriptor
import CallForest.Method.Record
import CallForest.Path
import CallForest.Proofs.Branch
import CallForest.Proofs.ChangedClasses
import CallForest.Proofs.ChangedPaths
import CallForest.Proofs.ClassFile.AnnotationAttribute
import CallForest.Proofs.ClassFile.Annotations
import CallForest.Proofs.ClassFile.BodyLayout
import CallForest.Proofs.ClassFile.Boundaries
import CallForest.Proofs.ClassFile.Bridges
import CallForest.Proofs.ClassFile.Building
import CallForest.Proofs.ClassFile.Calls
import CallForest.Proofs.ClassFile.CursorMoves
import CallForest.Proofs.ClassFile.Extent
import CallForest.Proofs.ClassFile.FatalFiles
import CallForest.Proofs.ClassFile.Faults
import CallForest.Proofs.ClassFile.InternTable
import CallForest.Proofs.ClassFile.Interning
import CallForest.Proofs.ClassFile.Layout
import CallForest.Proofs.ClassFile.Members
import CallForest.Proofs.ClassFile.Nesting
import CallForest.Proofs.ClassFile.PoolSlots
import CallForest.Proofs.ClassFile.Reading
import CallForest.Proofs.ClassFile.RoundTrip
import CallForest.Proofs.ClassFile.Scope
import CallForest.Proofs.ClassFile.Truncation
import CallForest.Proofs.ClassFile.Walking
import CallForest.Proofs.Containment
import CallForest.Proofs.Counting
import CallForest.Proofs.DepthBound
import CallForest.Proofs.DepthLimit
import CallForest.Proofs.Descriptor
import CallForest.Proofs.Dispatch
import CallForest.Proofs.Document
import CallForest.Proofs.Drawing
import CallForest.Proofs.DrawingSteps
import CallForest.Proofs.Embedding
import CallForest.Proofs.EntryClassification
import CallForest.Proofs.Expansion
import CallForest.Proofs.FailureMap
import CallForest.Proofs.FileWalk
import CallForest.Proofs.Growth
import CallForest.Proofs.Json.Quoting
import CallForest.Proofs.Json.RoundTrip
import CallForest.Proofs.Justification
import CallForest.Proofs.Lookup
import CallForest.Proofs.Markup.Content
import CallForest.Proofs.Markup.Scanning
import CallForest.Proofs.ParameterTypes
import CallForest.Proofs.PathText
import CallForest.Proofs.Places
import CallForest.Proofs.ProjectGroup
import CallForest.Proofs.Pruning
import CallForest.Proofs.Reachability
import CallForest.Proofs.RecordOrder
import CallForest.Proofs.Recursion
import CallForest.Proofs.Repetition
import CallForest.Proofs.RequestPath
import CallForest.Proofs.Scheduling
import CallForest.Proofs.Sequence
import CallForest.Proofs.Signature
import CallForest.Proofs.Text.Cutting
import CallForest.Proofs.Text.EitherForm
import CallForest.Proofs.Text.Encoding
import CallForest.Proofs.Text.Mark
import CallForest.Report.Document
import CallForest.Report.Drawing
import CallForest.Report.Format
import CallForest.RevisionDiff
import CallForest.Scan
import CallForest.Settings
import CallForest.Text.Blank
import CallForest.Text.Digit
import CallForest.Text.Letter
import CallForest.Text.LowerCase
import CallForest.Text.ModifiedUtf8
import CallForest.Text.Run
import CallForest.Text.Search
import CallForest.Text.Utf16
import CallForest.Text.Utf8
import CallForest.Toml.Parser
import CallForest.Toml.Table
import CallForest.Toml.Token
import CallForest.ValuePattern.CharacterSet
import CallForest.ValuePattern.Grammar
import CallForest.ValuePattern.Mode
import CallForest.WorkerPool
