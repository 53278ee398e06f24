import Mailroom.Agent
import Mailroom.CommandLine.Command
import Mailroom.CommandLine.Disk
import Mailroom.CommandLine.Grammar
import Mailroom.CommandLine.Listing
import Mailroom.CommandLine.Perform
import Mailroom.CommandLine.Usage
import Mailroom.CommandLine.Words
import Mailroom.Envelope
import Mailroom.Error
import Mailroom.Files.Fault
import Mailroom.Files.NamePattern
import Mailroom.Files.PathText
import Mailroom.Files.Search
import Mailroom.Files.Tree
import Mailroom.Identity
import Mailroom.Json.Fault
import Mailroom.Json.Mail
import Mailroom.Json.Reader
import Mailroom.Json.Record
import Mailroom.Json.TextRecord
import Mailroom.Json.Value
import Mailroom.Legacy.Import
import Mailroom.Legacy.Record
import Mailroom.Mailbox.Arrival
import Mailroom.Mailbox.Basic
import Mailroom.Mailbox.Configured
import Mailroom.Mailbox.Draft
import Mailroom.Mailbox.Enrolment
import Mailroom.Mailbox.Inbox
import Mailroom.Mailbox.Posting
import Mailroom.Mailbox.Pruning
import Mailroom.Main
import Mailroom.Memory
import Mailroom.Message
import Mailroom.Names
import Mailroom.Proofs.CommandLine.AdmittedDays
import Mailroom.Proofs.CommandLine.InboxListing
import Mailroom.Proofs.EnvelopeBreaks
import Mailroom.Proofs.EnvelopeLine
import Mailroom.Proofs.EnvelopeReading
import Mailroom.Proofs.Files.Paths
import Mailroom.Proofs.Files.Patterns
import Mailroom.Proofs.Files.Trees
import Mailroom.Proofs.Legacy.FirstRecords
import Mailroom.Proofs.Legacy.Layout
import Mailroom.Proofs.Legacy.Migration
import Mailroom.Proofs.Legacy.RecordTimes
import Mailroom.Proofs.Legacy.Repetition
import Mailroom.Proofs.Legacy.TakeOver
import Mailroom.Proofs.Mailbox.Agreement
import Mailroom.Proofs.Mailbox.Arrivals
import Mailroom.Proofs.Mailbox.Batches
import Mailroom.Proofs.Mailbox.Broadcast
import Mailroom.Proofs.Mailbox.Contention
import Mailroom.Proofs.Mailbox.CutoffReach
import Mailroom.Proofs.Mailbox.Delivery
import Mailroom.Proofs.Mailbox.FirstEnvelopes
import Mailroom.Proofs.Mailbox.Histories
import Mailroom.Proofs.Mailbox.InboxOrder
import Mailroom.Proofs.Mailbox.Inboxes
import Mailroom.Proofs.Mailbox.Interleaving
import Mailroom.Proofs.Mailbox.Isolation
import Mailroom.Proofs.Mailbox.Letters
import Mailroom.Proofs.Mailbox.MalformedRows
import Mailroom.Proofs.Mailbox.OneMessage
import Mailroom.Proofs.Mailbox.Origins
import Mailroom.Proofs.Mailbox.OwnId
import Mailroom.Proofs.Mailbox.PruneCourse
import Mailroom.Proofs.Mailbox.PruneReport
import Mailroom.Proofs.Mailbox.Reading
import Mailroom.Proofs.Mailbox.Receipts
import Mailroom.Proofs.Mailbox.Refusals
import Mailroom.Proofs.Mailbox.SafeFields
import Mailroom.Proofs.Mailbox.SharedPosition
import Mailroom.Proofs.Mailbox.Stamps
import Mailroom.Proofs.Outcome
import Mailroom.Proofs.Sanitizing
import Mailroom.Proofs.SettingsLayers
import Mailroom.Proofs.Store.Counters
import Mailroom.Proofs.Store.Cutoff
import Mailroom.Proofs.Store.Growth
import Mailroom.Proofs.Store.Lifecycle
import Mailroom.Proofs.Store.Opening
import Mailroom.Proofs.Store.RosterHistory
import Mailroom.Proofs.Store.RosterSummary
import Mailroom.Proofs.Store.Rows
import Mailroom.Proofs.Store.Tally
import Mailroom.Proofs.Store.Transactions
import Mailroom.Proofs.Text.Encodings
import Mailroom.Proofs.Text.LineEnds
import Mailroom.Proofs.Text.Numeral
import Mailroom.Proofs.Text.Percent
import Mailroom.Proofs.Text.Pieces
import Mailroom.Proofs.Time.CalendarOrder
import Mailroom.Proofs.Time.DaysBack
import Mailroom.Proofs.Time.Rfc3339Accepting
import Mailroom.Proofs.Time.Rfc3339Reading
import Mailroom.Proofs.Time.StampComparison
import Mailroom.Proofs.Time.StampForm
import Mailroom.Proofs.Time.StampOrder
import Mailroom.Proofs.Transport.Indistinct
import Mailroom.Proofs.Transport.RelayReach
import Mailroom.Proofs.Transport.Relaying
import Mailroom.Proofs.Transport.RoomExchanges
import Mailroom.Proofs.Transport.RoomPosition
import Mailroom.Proofs.Transport.RoomPosts
import Mailroom.Proofs.Transport.SharedRoom
import Mailroom.Proofs.Transport.Sources
import Mailroom.Proofs.Transport.Spool
import Mailroom.Proofs.Transport.SpoolCommit
import Mailroom.Proofs.Transport.Stream
import Mailroom.Proofs.Url.Marks
import Mailroom.Proofs.Url.QueryPairs
import Mailroom.Proofs.Url.RoomAddress
import Mailroom.Proofs.Url.Written
import Mailroom.Settings
import Mailroom.Store.Basic
import Mailroom.Store.Document
import Mailroom.Store.Messages
import Mailroom.Store.Opening
import Mailroom.Store.Retention
import Mailroom.Store.Roster
import Mailroom.Store.Statistics
import Mailroom.Surroundings
import Mailroom.Text.Base64
import Mailroom.Text.Blank
import Mailroom.Text.Lines
import Mailroom.Text.LowerCase
import Mailroom.Text.Numeral
import Mailroom.Text.Percent
import Mailroom.Text.Utf8
import Mailroom.Time.Calendar
import Mailroom.Time.Instant
import Mailroom.Time.Rfc3339
import Mailroom.Transport.Basic
import Mailroom.Transport.Matrix
import Mailroom.Transport.Simplex
import Mailroom.Transport.Stream
import Mailroom.Ulid
import Mailroom.Url.Basic
import Mailroom.Url.Host
import Mailroom.Url.Parser
import Mailroom.Url.Punycode
