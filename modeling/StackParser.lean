import StackParser.ParseError.Equality
import StackParser.Text.Quoted
import StackParser.Bundled.Catalogue
import StackParser.Session.Reply
import StackParser.Main
import StackParser.Proofs.Repetition
import StackParser.Proofs.Signature
import StackParser.Proofs.BundledErrors
import StackParser.Proofs.Writing
import StackParser.Proofs.Reading
import StackParser.Proofs.MonkeyBlocks
import StackParser.Proofs.InstructionLanguage
import StackParser.Proofs.DirectoryWalk
import StackParser.Proofs.TranscriptRuns
import StackParser.Proofs.Acceptance
import StackParser.Proofs.TranscriptLanguage
import StackParser.Proofs.DirectorySizes
import StackParser.Proofs.DirectoryTotals
import StackParser.Proofs.RoundLanguage
import StackParser.Proofs.FailedSequences
import StackParser.Proofs.RecordFrame
import StackParser.Proofs.ExactReading
import StackParser.Proofs.MonkeyLines
import StackParser.Proofs.Conformance
import StackParser.Proofs.Surroundings
import StackParser.Proofs.LoopBounds
import StackParser.Proofs.LoopAgreement
import StackParser.Proofs.Grouping
import StackParser.Proofs.Stalling
import StackParser.Proofs.TranscriptInvariant
import StackParser.Proofs.Alternation
import StackParser.Proofs.Recovery
import StackParser.Proofs.SessionBounds
import StackParser.Proofs.FaithfulOutput
import StackParser.Proofs.Tables
import StackParser.Proofs.ExactAssembly
import StackParser.Proofs.MaximalMunch
import StackParser.Proofs.DirectoryRollUp
import StackParser.Proofs.Rejections
import StackParser.Proofs.ReportSpans
import StackParser.Proofs.FixedTexts
import StackParser.Proofs.Flattening
import StackParser.Proofs.SingleLines
import StackParser.Proofs.ParseCommand
