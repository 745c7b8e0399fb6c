import Datebook.Api.Body
import Datebook.Api.Gateway
import Datebook.Api.MediaType
import Datebook.Api.Target
import Datebook.Archive
import Datebook.Broker.Error
import Datebook.Broker.Queue
import Datebook.Broker.Retry
import Datebook.Broker.Stream
import Datebook.Broker.StreamServer
import Datebook.Event
import Datebook.Identifier
import Datebook.Json.Numeral
import Datebook.Json.Record
import Datebook.Json.Skip
import Datebook.Json.Text
import Datebook.Launch.Address
import Datebook.Launch.Arguments
import Datebook.Launch.Program
import Datebook.Main
import Datebook.Notification
import Datebook.Power
import Datebook.Rehearsal.Archive
import Datebook.Rehearsal.Desk
import Datebook.Rehearsal.Store
import Datebook.Rehearsal.Watch
import Datebook.Scheduler.Cadence
import Datebook.Scheduler.Tick
import Datebook.Script
import Datebook.Settings.Basic
import Datebook.Settings.Environment
import Datebook.Settings.Value
import Datebook.Store.Error
import Datebook.Store.Events
import Datebook.Store.Folder
import Datebook.Store.Location
import Datebook.Store.Memory
import Datebook.Store.Notifications
import Datebook.Store.Opening
import Datebook.Store.Table
import Datebook.Text.Blank
import Datebook.Text.Decimal
import Datebook.Text.Escaped
import Datebook.Text.Octets
import Datebook.Text.Percent
import Datebook.Time.Date
import Datebook.Time.Instant
import Datebook.Time.Timestamp
import Datebook.Toml.Document
import Datebook.Toml.Number
import Datebook.Toml.Text
import Datebook.Toml.Tree
import Datebook.Proofs.Agenda
import Datebook.Proofs.Bench
import Datebook.Proofs.Calls
import Datebook.Proofs.Clocks
import Datebook.Proofs.Rehearsals
import Datebook.Proofs.Holdings
import Datebook.Proofs.Micros
import Datebook.Proofs.Periods
import Datebook.Proofs.Upkeep
import Datebook.Proofs.Validity
import Datebook.Proofs.Windows
import Datebook.Proofs.Keys
import Datebook.Proofs.Slots
import Datebook.Proofs.Rounds
import Datebook.Proofs.Overruns
import Datebook.Proofs.Sweeps
import Datebook.Proofs.Replays
import Datebook.Proofs.Stages
import Datebook.Proofs.Handles
import Datebook.Proofs.Serial
import Datebook.Proofs.Dates
import Datebook.Proofs.Timestamps
import Datebook.Proofs.Turns
import Datebook.Proofs.Views
import Datebook.Proofs.ReadBacks
import Datebook.Proofs.Spellings
import Datebook.Proofs.Grammar
import Datebook.Proofs.Cells
import Datebook.Proofs.Objects
import Datebook.Proofs.Lists
import Datebook.Proofs.Wire
import Datebook.Proofs.Decoding
import Datebook.Proofs.Pipeline
import Datebook.Proofs.Groups
import Datebook.Proofs.Handoffs
import Datebook.Proofs.Archiving
import Datebook.Proofs.Requests
import Datebook.Proofs.Shutdowns
import Datebook.Proofs.Resubmissions
import Datebook.Proofs.Logs
import Datebook.Proofs.Precision
import Datebook.Proofs.Retries
import Datebook.Proofs.Cadences
import Datebook.Proofs.Retention
import Datebook.Proofs.Beginnings
import Datebook.Proofs.Columns
import Datebook.Proofs.Courses
import Datebook.Proofs.Floors
import Datebook.Proofs.Overlays
import Datebook.Proofs.Entries
import Datebook.Proofs.Fields
import Datebook.Proofs.Configuration
