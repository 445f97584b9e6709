import PlatformMarkers.Text.Basic
import PlatformMarkers.Text.Line
import PlatformMarkers.Text.Blank
import PlatformMarkers.Text.Utf8
import PlatformMarkers.Marker.Scan
import PlatformMarkers.Marker.Pattern
import PlatformMarkers.Rule.Draft
import PlatformMarkers.Rule.Book
import PlatformMarkers.Mac.Toggling
import PlatformMarkers.Mac.Balance
import PlatformMarkers.Text.DecimalDigit
import PlatformMarkers.Text.Quoted
import PlatformMarkers.File.NameList
import PlatformMarkers.File.Tree
import PlatformMarkers.Batch.Toggling
import PlatformMarkers.Batch.Memory
import PlatformMarkers.CommandLine.Request
import PlatformMarkers.Main
import PlatformMarkers.Proofs.Document
import PlatformMarkers.Proofs.Pieces
import PlatformMarkers.Proofs.Sweep
import PlatformMarkers.Proofs.RegularTable
import PlatformMarkers.Proofs.CommittedTable
import PlatformMarkers.Proofs.OrderIndependence
import PlatformMarkers.Proofs.Settling
import PlatformMarkers.Proofs.Nesting
import PlatformMarkers.Proofs.Lines
import PlatformMarkers.Proofs.Enclosure
import PlatformMarkers.Proofs.Comment
import PlatformMarkers.Proofs.DeadCode
import PlatformMarkers.Proofs.NormalForm
import PlatformMarkers.Proofs.Repetition
import PlatformMarkers.Proofs.History
import PlatformMarkers.Proofs.DelimiterErasure
import PlatformMarkers.Proofs.Locality
import PlatformMarkers.Proofs.Reports
import PlatformMarkers.Proofs.Entries
import PlatformMarkers.Proofs.Commits
import PlatformMarkers.Proofs.VisibleState
import PlatformMarkers.Proofs.Adoptions
import PlatformMarkers.Proofs.FailStop
import PlatformMarkers.Proofs.CheckMode
import PlatformMarkers.Proofs.Multiplicity
import PlatformMarkers.Proofs.Frame
import PlatformMarkers.Proofs.RuleLife
import PlatformMarkers.Proofs.Pairing
import PlatformMarkers.Proofs.Halting
import PlatformMarkers.Proofs.Escapes
import PlatformMarkers.Proofs.ReportedLines
import PlatformMarkers.Proofs.LeftmostLongest
import PlatformMarkers.Proofs.Stretches
import PlatformMarkers.Proofs.Alternatives
import PlatformMarkers.Proofs.NormalPath
import PlatformMarkers.Proofs.ListedNames
import PlatformMarkers.Proofs.ExtendedSyntax
import PlatformMarkers.Proofs.ShownPasses
import PlatformMarkers.Proofs.VerboseMode
import PlatformMarkers.Proofs.Operands
