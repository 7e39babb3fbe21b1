import Highlighter.Document
import Highlighter.Label
import Highlighter.Mode.Basic
import Highlighter.Mode.CellTail
import Highlighter.Mode.Registry
import Highlighter.Pattern.Assertion
import Highlighter.Pattern.Basic
import Highlighter.Pattern.Bracket
import Highlighter.Pattern.CharSet
import Highlighter.Pattern.Combine
import Highlighter.Pattern.Escape
import Highlighter.Pattern.Flags
import Highlighter.Pattern.Marking
import Highlighter.Pattern.Matching
import Highlighter.Pattern.Parser
import Highlighter.Pattern.Plan
import Highlighter.Pattern.Size
import Highlighter.Proofs.BuildVerdict
import Highlighter.Proofs.ByteOffsets
import Highlighter.Proofs.CellTailShapes
import Highlighter.Proofs.CellTailTable
import Highlighter.Proofs.CharClasses
import Highlighter.Proofs.CommentToggling
import Highlighter.Proofs.CommutingEdits
import Highlighter.Proofs.CycleReports
import Highlighter.Proofs.DeclarationDefects
import Highlighter.Proofs.DeclaredStates
import Highlighter.Proofs.DefinitionHeaders
import Highlighter.Proofs.DirectReading
import Highlighter.Proofs.EditDelta
import Highlighter.Proofs.EditedText
import Highlighter.Proofs.ExistingStates
import Highlighter.Proofs.FirstRegistered
import Highlighter.Proofs.FollowedPieces
import Highlighter.Proofs.GreedyStrings
import Highlighter.Proofs.GroupLabels
import Highlighter.Proofs.GroupNumbers
import Highlighter.Proofs.GroupSpans
import Highlighter.Proofs.IncrementalHighlighting
import Highlighter.Proofs.LabelledBytes
import Highlighter.Proofs.LeftContext
import Highlighter.Proofs.LineCover
import Highlighter.Proofs.LineSplitting
import Highlighter.Proofs.LineTerminators
import Highlighter.Proofs.ListedWords
import Highlighter.Proofs.MarkedRuns
import Highlighter.Proofs.MatchSpans
import Highlighter.Proofs.MergedTokens
import Highlighter.Proofs.NumbersAndWords
import Highlighter.Proofs.OffsetLookup
import Highlighter.Proofs.OpenStrings
import Highlighter.Proofs.OrderedWords
import Highlighter.Proofs.OverlongTexts
import Highlighter.Proofs.PlanWays
import Highlighter.Proofs.RejectedEdits
import Highlighter.Proofs.RescanExtent
import Highlighter.Proofs.ScanRuns
import Highlighter.Proofs.ShiftedScans
import Highlighter.Proofs.SingleSteps
import Highlighter.Proofs.Splicing
import Highlighter.Proofs.StoredRoundTrip
import Highlighter.Proofs.TakenTexts
import Highlighter.Proofs.TokenCap
import Highlighter.Proofs.VocabularyLabels
import Highlighter.Proofs.WholeWords
import Highlighter.Proofs.WordOverlaps
import Highlighter.Scan
import Highlighter.Stored.Json
import Highlighter.Stored.Record
import Highlighter.Stored.Settings
import Highlighter.Stored.Tokens
import Highlighter.Table.Basic
import Highlighter.Table.Build
import Highlighter.Table.Draft
import Highlighter.Text.Blank
import Highlighter.Text.Bytes
import Highlighter.Text.CaseFold
import Highlighter.Text.Cursor
import Highlighter.Text.Digit
import Highlighter.Text.Letter
import Highlighter.Text.LineIndex
import Highlighter.Text.RangeTable
import Highlighter.Text.Span
import Highlighter.Text.Utf8
import Highlighter.Text.WordChar
import Highlighter.Text.WordOrder
import Highlighter.Token
import Highlighter.Vocabulary
