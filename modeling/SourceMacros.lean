import SourceMacros.Code
import SourceMacros.Main
import SourceMacros.Proofs.Lines
import SourceMacros.Proofs.TokenOrder
import SourceMacros.Proofs.Outcome
import SourceMacros.Proofs.Turns
import SourceMacros.Proofs.Parts
import SourceMacros.Proofs.PassLaws
import SourceMacros.Proofs.DirectPass
import SourceMacros.Proofs.TreeChanges
import SourceMacros.Proofs.Deeds
import SourceMacros.Proofs.Operations
import SourceMacros.Proofs.Resolving
import SourceMacros.Proofs.History
import SourceMacros.Proofs.RecordLaws
import SourceMacros.Proofs.TreeGrowth
import SourceMacros.Proofs.Episodes
import SourceMacros.Proofs.Narration
import SourceMacros.Proofs.Calls
import SourceMacros.Proofs.PackageLaws
import SourceMacros.Proofs.Independence
import SourceMacros.Proofs.Following
import SourceMacros.Proofs.Nesting
import SourceMacros.Proofs.Bounds
import SourceMacros.Proofs.Depth
import SourceMacros.Proofs.TerminationLaws
import SourceMacros.Proofs.Pairing
import SourceMacros.Proofs.LayoutSteps
import SourceMacros.Proofs.Lexemes
import SourceMacros.Proofs.TokenShape
import SourceMacros.Proofs.Coverage
import SourceMacros.Proofs.Splicing
import SourceMacros.Proofs.OpenBlocks
import SourceMacros.Proofs.Indentation
import SourceMacros.Proofs.RunLog
import SourceMacros.Proofs.NotedRuns
import SourceMacros.Proofs.Bookkeeping
import SourceMacros.Proofs.BootstrapLaws
import SourceMacros.Proofs.CarriageReturns
import SourceMacros.Proofs.ReturnedLexemes
import SourceMacros.Proofs.LineEndings
import SourceMacros.Proofs.PathNames
import SourceMacros.Proofs.TreeShape
import SourceMacros.Proofs.Ways
import SourceMacros.Proofs.Placement
import SourceMacros.Proofs.Questions
import SourceMacros.Proofs.Frames
import SourceMacros.Proofs.PackageFrames
import SourceMacros.Proofs.TranslationLaws
import SourceMacros.Proofs.Extensions
import SourceMacros.Proofs.SourceLaws
import SourceMacros.Proofs.Walks
import SourceMacros.Proofs.Renditions
import SourceMacros.Proofs.FolderLaws
import SourceMacros.Proofs.Accounts
import SourceMacros.Proofs.RecordText
import SourceMacros.Proofs.Arrivals
import SourceMacros.Proofs.KeptRecords
import SourceMacros.Proofs.Blanks
import SourceMacros.Proofs.LeadingBlanks
import SourceMacros.Proofs.GuardedRuns
import SourceMacros.Proofs.Repetition
import SourceMacros.Proofs.LineFeeds
import SourceMacros.Proofs.Places
import SourceMacros.Proofs.FailingSteps
import SourceMacros.Proofs.Cursor
import SourceMacros.Proofs.Faults
import SourceMacros.Proofs.References
import SourceMacros.Proofs.Literals
import SourceMacros.Proofs.Interruption
import SourceMacros.Proofs.PackageSearch
import SourceMacros.Proofs.JsonTexts
import SourceMacros.Proofs.JsonReading
import SourceMacros.Proofs.ManifestLaws
