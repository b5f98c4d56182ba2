import ClassWeaver.ClassFile.Parser
import ClassWeaver.ClassFile.Summary
import ClassWeaver.Code.Fault
import ClassWeaver.Code.Descriptor
import ClassWeaver.Code.Effect
import ClassWeaver.Code.Flow
import ClassWeaver.Code.Relocation
import ClassWeaver.Code.Instruction
import ClassWeaver.Digest.Sha256
import ClassWeaver.Pool.Growth
import ClassWeaver.Text.Blank
import ClassWeaver.Text.Json.Decoder
import ClassWeaver.Rule.Plan
import ClassWeaver.Instrumentation
import ClassWeaver.Filter
import ClassWeaver.Failure
import ClassWeaver.Settings.Basic
import ClassWeaver.Stage
import ClassWeaver.Weaving
import ClassWeaver.Archive.Retries
import ClassWeaver.Report
import ClassWeaver.Files.System
import ClassWeaver.Files.Tree
import ClassWeaver.Unit.Basic
import ClassWeaver.Unit.Layout
import ClassWeaver.Unit.Scan
import ClassWeaver.Archive.Entry
import ClassWeaver.Archive.Transform
import ClassWeaver.Archive.Zip.Crc
import ClassWeaver.Archive.Zip.Deflate
import ClassWeaver.Archive.Zip.Directory
import ClassWeaver.Archive.Zip.Fault
import ClassWeaver.Archive.Zip.Image
import ClassWeaver.Archive.Zip.Name
import ClassWeaver.Archive.Zip.Reader
import ClassWeaver.State.File
import ClassWeaver.Archive.File
import ClassWeaver.Run.Basic
import ClassWeaver.CommandLine.Basic
import ClassWeaver.CommandLine.Options
import ClassWeaver.CommandLine.Parser
import ClassWeaver.Program
import ClassWeaver.Files.Disk
import ClassWeaver.Main
import ClassWeaver.Proofs.Rewriting.ChangedClass
import ClassWeaver.Proofs.Rewriting.FieldWidths
import ClassWeaver.Proofs.Rewriting.Idempotence
import ClassWeaver.Proofs.Code.PlacementComposition
import ClassWeaver.Proofs.Code.StackMapRoundTrip
import ClassWeaver.Proofs.Code.AttributeComposition
import ClassWeaver.Proofs.Code.Succession
import ClassWeaver.Proofs.Files.Places
import ClassWeaver.Proofs.Files.Trees
import ClassWeaver.Proofs.Files.Effects
import ClassWeaver.Proofs.Unit.Locations
import ClassWeaver.Proofs.Unit.Confinement
import ClassWeaver.Proofs.Unit.Scan
import ClassWeaver.Proofs.Run.Confinement
import ClassWeaver.Proofs.Text.Json
import ClassWeaver.Proofs.Text.Utf8
import ClassWeaver.Proofs.Text.Truncation
import ClassWeaver.Proofs.Pool.OverlongTexts
import ClassWeaver.Proofs.State.SnapshotRoundTrip
import ClassWeaver.Proofs.State.OpenedStore
import ClassWeaver.Proofs.Run.Phases
import ClassWeaver.Proofs.Run.FailedRuns
import ClassWeaver.Proofs.Run.NamedFailures
import ClassWeaver.Proofs.Archive.Transformation
import ClassWeaver.Proofs.Unit.Expected
import ClassWeaver.Proofs.Settings.Fingerprint
import ClassWeaver.Proofs.Settings.Answers
import ClassWeaver.Proofs.Unit.Results
import ClassWeaver.Proofs.Unit.Reports
import ClassWeaver.Proofs.Run.Tallies
import ClassWeaver.Proofs.Run.Commit
import ClassWeaver.Proofs.Run.Site
import ClassWeaver.Proofs.Run.History
import ClassWeaver.Proofs.ClassFile.ByteCoverage
import ClassWeaver.Proofs.ClassFile.AnnotationGrammar
import ClassWeaver.Proofs.State.Sessions
import ClassWeaver.Proofs.Rewriting.HookCalls
import ClassWeaver.Proofs.Code.RelocatedParts
import ClassWeaver.Proofs.Pool.Additions
import ClassWeaver.Proofs.Rule.Conflicts
import ClassWeaver.Proofs.Code.ReplacementBody
import ClassWeaver.Proofs.Code.SwitchAlignment
import ClassWeaver.Proofs.Code.LongPairs
import ClassWeaver.Proofs.Code.EmptyRelocation
import ClassWeaver.Proofs.Code.FrameDistances
import ClassWeaver.Proofs.Archive.Agreement
import ClassWeaver.Proofs.Unit.Keys
import ClassWeaver.Proofs.Rule.Names
import ClassWeaver.Proofs.Filter.Union
import ClassWeaver.Proofs.Code.StackLocality
import ClassWeaver.Proofs.Code.DescriptorGrammar
import ClassWeaver.Proofs.Code.EndOfFlow
import ClassWeaver.Proofs.Code.Cuts
