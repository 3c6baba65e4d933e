import Cadence.Client.Backoff
import Cadence.Client.Fetch
import Cadence.Client.Loopback
import Cadence.CommandLine.Command
import Cadence.CommandLine.Options
import Cadence.CommandLine.Override
import Cadence.CommandLine.Run
import Cadence.CommandLine.Value
import Cadence.Files.Tree
import Cadence.Http.Body
import Cadence.Http.Docs
import Cadence.Http.Endpoint
import Cadence.Http.Envelope
import Cadence.Http.MediaType
import Cadence.Http.Message
import Cadence.Http.Service
import Cadence.Job.Basic
import Cadence.Job.Poll
import Cadence.Job.Seed
import Cadence.Job.Store
import Cadence.Json.Basic
import Cadence.Json.Decode
import Cadence.Json.Layout
import Cadence.Json.Print
import Cadence.Json.Read
import Cadence.Json.Record
import Cadence.Log.Config
import Cadence.Log.Filter
import Cadence.Log.Folder
import Cadence.Log.Rotation
import Cadence.Log.Writer
import Cadence.Main
import Cadence.Number.Binary64
import Cadence.Number.Shortest
import Cadence.Policy.Decision
import Cadence.Policy.Principal
import Cadence.Proofs.Client.Bearer
import Cadence.Proofs.Client.Cooling
import Cadence.Proofs.Client.Course
import Cadence.Proofs.Client.Exchange
import Cadence.Proofs.Client.History
import Cadence.Proofs.Client.Message
import Cadence.Proofs.Client.Protocol
import Cadence.Proofs.Client.Rotation
import Cadence.Proofs.Client.Saturation
import Cadence.Proofs.Client.Windows
import Cadence.Proofs.CommandLine.Merge
import Cadence.Proofs.CommandLine.ServiceUrl
import Cadence.Proofs.Http.Access
import Cadence.Proofs.Http.Causes
import Cadence.Proofs.Http.Envelope
import Cadence.Proofs.Http.RefreshRequest
import Cadence.Proofs.Http.Renewal
import Cadence.Proofs.Http.Respond
import Cadence.Proofs.Job.Bookkeeping
import Cadence.Proofs.Job.Course
import Cadence.Proofs.Job.Effect
import Cadence.Proofs.Job.Errand
import Cadence.Proofs.Job.Ids
import Cadence.Proofs.Job.Interleaving
import Cadence.Proofs.Job.Order
import Cadence.Proofs.Job.Overlap
import Cadence.Proofs.Job.Poll
import Cadence.Proofs.Job.Row
import Cadence.Proofs.Job.Script
import Cadence.Proofs.Job.Seeding
import Cadence.Proofs.Job.Session
import Cadence.Proofs.Job.Store
import Cadence.Proofs.Job.Wire
import Cadence.Proofs.Json.Decode
import Cadence.Proofs.Json.Record
import Cadence.Proofs.Json.Skip
import Cadence.Proofs.Json.Text
import Cadence.Proofs.Json.TextRecord
import Cadence.Proofs.Log.Archive
import Cadence.Proofs.Log.Course
import Cadence.Proofs.Log.Fault
import Cadence.Proofs.Log.Folder
import Cadence.Proofs.Log.Names
import Cadence.Proofs.Log.Neighbours
import Cadence.Proofs.Log.Retention
import Cadence.Proofs.Log.Setup
import Cadence.Proofs.Log.Sound
import Cadence.Proofs.Log.Stream
import Cadence.Proofs.Policy.Rights
import Cadence.Proofs.Policy.Trail
import Cadence.Proofs.Schedule.Blanks
import Cadence.Proofs.Schedule.FiveFields
import Cadence.Proofs.Schedule.Gaps
import Cadence.Proofs.Schedule.Grammar
import Cadence.Proofs.Schedule.Line
import Cadence.Proofs.Schedule.NumericDays
import Cadence.Proofs.Schedule.Order
import Cadence.Proofs.Schedule.Progress
import Cadence.Proofs.Schedule.Reader
import Cadence.Proofs.Schedule.Search
import Cadence.Proofs.Schedule.Spacing
import Cadence.Proofs.Schedule.TimerFields
import Cadence.Proofs.Schedule.TimerStart
import Cadence.Proofs.Schedule.TimerWords
import Cadence.Proofs.Schedule.Weekdays
import Cadence.Proofs.Settings.Layers
import Cadence.Proofs.Settings.Leaves
import Cadence.Proofs.Settings.Partial
import Cadence.Proofs.Settings.Precedence
import Cadence.Proofs.Settings.Rules
import Cadence.Proofs.Settings.Verbatim
import Cadence.Proofs.Text.Chars
import Cadence.Proofs.Text.Digits
import Cadence.Proofs.Text.Lookup
import Cadence.Proofs.Text.Numerals
import Cadence.Proofs.Text.Split
import Cadence.Proofs.Time.Calendar
import Cadence.Proofs.Time.Compact
import Cadence.Proofs.Time.Elapsed
import Cadence.Proofs.Time.Stamp
import Cadence.Proofs.Token.Base64
import Cadence.Proofs.Token.Lifetime
import Cadence.Proofs.Token.RoundTrip
import Cadence.Proofs.Token.Validation
import Cadence.Proofs.Url.Absolute
import Cadence.Proofs.Url.Authority
import Cadence.Proofs.Url.Origin
import Cadence.Schedule.Crontab
import Cadence.Schedule.Expression
import Cadence.Schedule.Field
import Cadence.Schedule.Kind
import Cadence.Schedule.Next
import Cadence.Schedule.Timer
import Cadence.Server.Start
import Cadence.Service.DatabaseFault
import Cadence.Service.Error
import Cadence.Settings.Basic
import Cadence.Settings.Decode
import Cadence.Settings.Environment
import Cadence.Settings.Error
import Cadence.Settings.Layers
import Cadence.Settings.Load
import Cadence.Settings.Validate
import Cadence.Text.Basic
import Cadence.Text.Digits
import Cadence.Time.Date
import Cadence.Time.Instant
import Cadence.Time.Stamp
import Cadence.Token.Base64
import Cadence.Token.Basic
import Cadence.Token.Claims
import Cadence.Token.Sha256
import Cadence.Toml.Read
import Cadence.Toml.Stamp
import Cadence.Toml.Table
import Cadence.Url.Address
import Cadence.Url.Basic
import Cadence.Url.Domain
import Cadence.Url.Percent
import Cadence.Url.Read
