import ArcFile.CommandLine
import ArcFile.Archive.Builder
import ArcFile.Gzip.Contents
import ArcFile.Main
import ArcFile.Proofs.Supply.Steady
import ArcFile.Proofs.Supply.View
import ArcFile.Proofs.Supply.Tape
import ArcFile.Proofs.Supply.Content
import ArcFile.Proofs.Record.Search
import ArcFile.Proofs.Record.Opening
import ArcFile.Proofs.Archive.Frame
import ArcFile.Proofs.Archive.Reading
import ArcFile.Proofs.Archive.Handling
import ArcFile.Proofs.Gzip.Inflating
import ArcFile.Proofs.Gzip.Header
import ArcFile.Proofs.Gzip.Unpacking
import ArcFile.Proofs.Gzip.Stored
import ArcFile.Proofs.Archive.Passage
import ArcFile.Proofs.Archive.Passage.Packed
import ArcFile.Proofs.Archive.Passage.Plain
import ArcFile.Proofs.Archive.Tour
import ArcFile.Proofs.Record.Line
import ArcFile.Proofs.Archive.Format
import ArcFile.Proofs.Archive.Acceptance
import ArcFile.Proofs.Record.Fields
import ArcFile.Proofs.Archive.Building
import ArcFile.Proofs.Archive.Output
import ArcFile.Proofs.Archive.RoundTrip
import ArcFile.Proofs.Archive.Likeness
import ArcFile.Proofs.Archive.Survey
import ArcFile.Proofs.Archive.Buffering
import ArcFile.Proofs.Archive.Repacking
import ArcFile.Proofs.Archive.Course
import ArcFile.Proofs.Archive.Passage.Dry
import ArcFile.Proofs.Archive.Ledger
import ArcFile.Proofs.Archive.Members
import ArcFile.Proofs.Gzip.Ending
import ArcFile.Proofs.Archive.Endless
import ArcFile.Proofs.Archive.RandomAccess
import ArcFile.Proofs.Text.Encoding
import ArcFile.Proofs.Text.Lines
import ArcFile.Proofs.Text.Numeral
import ArcFile.Proofs.Record.OneLine
import ArcFile.Proofs.Supply.Onward
import ArcFile.Proofs.Archive.Onward
import ArcFile.Proofs.Archive.Progress
import ArcFile.Proofs.Archive.Report
import ArcFile.Proofs.Archive.Closing
import ArcFile.Proofs.Archive.Skipping
import ArcFile.Proofs.Supply.Accounting
import ArcFile.Proofs.Http.Head
import ArcFile.Proofs.Http.StartLine
import ArcFile.Proofs.Http.Lookup
import ArcFile.Proofs.Http.Unfolding
import ArcFile.Proofs.Archive.Sequence
import ArcFile.Proofs.Record.Written
import ArcFile.Proofs.Archive.VersionBlock
import ArcFile.Proofs.Value.Slot
import ArcFile.Proofs.Value.Address
import ArcFile.Proofs.Value.Calendar
import ArcFile.Proofs.Value.Timestamp
import ArcFile.Proofs.Value.MediaType
import ArcFile.Proofs.Value.MediaType.Descent
import ArcFile.Proofs.Value.MediaType.Canonical
import ArcFile.Proofs.Record.Placeholder
import ArcFile.Proofs.Record.Diagnosis
import ArcFile.Proofs.Record.Rows
import ArcFile.Proofs.Record.Scheme
import ArcFile.Proofs.Record.Lossy
import ArcFile.Proofs.Archive.HeaderLine
import ArcFile.Proofs.Archive.Faults
import ArcFile.Proofs.Supply.LookAhead
import ArcFile.Proofs.Supply.Line
import ArcFile.Proofs.Archive.HeadLimit
import ArcFile.Proofs.Archive.Consumption
