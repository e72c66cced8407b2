import BrokerHooks.ReasonCode
import BrokerHooks.Protocol
import BrokerHooks.TopicFilter
import BrokerHooks.Packet.Error
import BrokerHooks.Packet.Limits
import BrokerHooks.Packet.Properties
import BrokerHooks.Packet.Basic
import BrokerHooks.Draft.Edit
import BrokerHooks.Draft.Basic
import BrokerHooks.Point
import BrokerHooks.RateLimiter
import BrokerHooks.Alias.Account
import BrokerHooks.Alias.Table
import BrokerHooks.Alias.Ledger
import BrokerHooks.Record
import BrokerHooks.Packet.Record
import BrokerHooks.Turn
import BrokerHooks.Extension.Error
import BrokerHooks.Extension.Program
import BrokerHooks.Report
import BrokerHooks.Delivery
import BrokerHooks.Extension.Roster
import BrokerHooks.Metrics.Basic
import BrokerHooks.Metrics.Exposition
import BrokerHooks.Broker.Basic
import BrokerHooks.Broker.Perform
import BrokerHooks.Broker.Chain
import BrokerHooks.Broker.Clock
import BrokerHooks.Config.Basic
import BrokerHooks.Session.Script
import BrokerHooks.Session.Basic
import BrokerHooks.Config.Record
import BrokerHooks.Toml.Dialect
import BrokerHooks.Toml.Value
import BrokerHooks.Toml.Scanner
import BrokerHooks.Toml.Text
import BrokerHooks.Toml.Number
import BrokerHooks.Toml.Document
import BrokerHooks.Config.Duration
import BrokerHooks.Config.Placeholder
import BrokerHooks.Config.Decoder
import BrokerHooks.Config.Strict
import BrokerHooks.Config.Setting
import BrokerHooks.Config.Scalar
import BrokerHooks.Config.Layered
import BrokerHooks.Proofs.Run.Basic
import BrokerHooks.Proofs.Run.Effect
import BrokerHooks.Proofs.Run.Serve
import BrokerHooks.Proofs.Run.Cases
import BrokerHooks.Proofs.Chain.Course
import BrokerHooks.Proofs.Chain.Lane
import BrokerHooks.Proofs.Chain.Stage
import BrokerHooks.Proofs.Chain.Finish
import BrokerHooks.Proofs.Chain.Execution
import BrokerHooks.Proofs.Alias.Ledger
import BrokerHooks.Proofs.Run.Rosters
import BrokerHooks.Proofs.Alias.Balance
import BrokerHooks.Proofs.Chain.Interceptor
import BrokerHooks.Proofs.Chain.Isolation
import BrokerHooks.Proofs.RateLimiter.Admission
import BrokerHooks.Proofs.Run.Story
import BrokerHooks.Proofs.Roster.Placement
import BrokerHooks.Proofs.Chain.Lookup
import BrokerHooks.Proofs.Roster.Discard
import BrokerHooks.Proofs.Turn.History
import BrokerHooks.Proofs.Turn.Deadline
import BrokerHooks.Proofs.Run.Turns
import BrokerHooks.Proofs.Chain.Latency
import BrokerHooks.Proofs.Chain.Settling
import BrokerHooks.Proofs.Chain.Outcome
import BrokerHooks.Proofs.Roster.History
import BrokerHooks.Proofs.Roster.Installation
import BrokerHooks.Proofs.Roster.Reach
import BrokerHooks.Proofs.Run.Pauses
import BrokerHooks.Proofs.Late.Code
import BrokerHooks.Proofs.Late.Roster
import BrokerHooks.Proofs.Late.Chain
import BrokerHooks.Proofs.Late.Run
import BrokerHooks.Proofs.Draft.Revision
import BrokerHooks.Proofs.Draft.Frame
import BrokerHooks.Proofs.Draft.Modified
import BrokerHooks.Proofs.Draft.ReasonCodes
import BrokerHooks.Proofs.Draft.Content
import BrokerHooks.Proofs.Chain.Conclusion
import BrokerHooks.Proofs.Chain.Content
import BrokerHooks.Proofs.Chain.Policy
import BrokerHooks.Proofs.Chain.Acknowledgement
import BrokerHooks.Proofs.Metrics.Books
import BrokerHooks.Proofs.Metrics.Balance
import BrokerHooks.Proofs.Metrics.Calls
import BrokerHooks.Proofs.Metrics.Totals
import BrokerHooks.Proofs.Lane.Code
import BrokerHooks.Proofs.Lane.Roster
import BrokerHooks.Proofs.Lane.View
import BrokerHooks.Proofs.Lane.Private
import BrokerHooks.Proofs.Lane.Regular
import BrokerHooks.Proofs.Lane.Sound
import BrokerHooks.Proofs.Lane.Frame
import BrokerHooks.Proofs.Lane.Twin
import BrokerHooks.Proofs.Lane.Ties
import BrokerHooks.Proofs.Lane.Stir
import BrokerHooks.Proofs.Lane.Outside
import BrokerHooks.Proofs.Lane.Coupling
import BrokerHooks.Proofs.Lane.Isolation
import BrokerHooks.Proofs.Lane.Fate
import BrokerHooks.Proofs.Chain.Deferring
import BrokerHooks.Proofs.RateLimiter.Compliance
import BrokerHooks.Proofs.RateLimiter.Verdict
import BrokerHooks.Proofs.RateLimiter.Recovery
import BrokerHooks.Proofs.Alias.Acts
import BrokerHooks.Proofs.Alias.Settlement
import BrokerHooks.Proofs.Alias.LastWriter
import BrokerHooks.Proofs.Roster.Closing
import BrokerHooks.Proofs.Run.Services
import BrokerHooks.Proofs.Roster.FirstClose
import BrokerHooks.Proofs.Roster.Resolution
import BrokerHooks.Proofs.Draft.Requests
import BrokerHooks.Proofs.Chain.Requests
import BrokerHooks.Proofs.Draft.Entries
import BrokerHooks.Proofs.Draft.Settings
import BrokerHooks.Proofs.Text.Cut
import BrokerHooks.Proofs.TopicFilter.Grammar
import BrokerHooks.Proofs.Config.Placeholder
import BrokerHooks.Proofs.Draft.Properties
