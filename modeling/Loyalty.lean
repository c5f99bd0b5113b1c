import Loyalty.Command
import Loyalty.Delivery.Bus
import Loyalty.Delivery.Dispatcher
import Loyalty.Delivery.Handler
import Loyalty.Delivery.Pause
import Loyalty.Delivery.Policy
import Loyalty.Event.Change
import Loyalty.Event.History
import Loyalty.Event.Kind
import Loyalty.Event.Stored
import Loyalty.EventStore
import Loyalty.Failure
import Loyalty.Json.Reader
import Loyalty.Json.Shape
import Loyalty.Json.Size
import Loyalty.Json.Token
import Loyalty.Json.Value
import Loyalty.Json.Writer
import Loyalty.Points
import Loyalty.Process.Activity
import Loyalty.Process.Calls
import Loyalty.Process.Course
import Loyalty.Process.Crowd
import Loyalty.Process.Execution
import Loyalty.Process.Request
import Loyalty.Process.Reward
import Loyalty.Process.Schedule
import Loyalty.Process.Wiring
import Loyalty.Proofs.Delivery.Attempts
import Loyalty.Proofs.Delivery.Bootstrapping
import Loyalty.Proofs.Delivery.Lateness
import Loyalty.Proofs.Delivery.Publishing
import Loyalty.Proofs.Delivery.Retrying
import Loyalty.Proofs.Delivery.Rewarding
import Loyalty.Proofs.Delivery.Routing
import Loyalty.Proofs.Delivery.Seclusion
import Loyalty.Proofs.Delivery.Settings
import Loyalty.Proofs.Event.Gate
import Loyalty.Proofs.Event.Order
import Loyalty.Proofs.Event.Payload
import Loyalty.Proofs.EventStore
import Loyalty.Proofs.Failure
import Loyalty.Proofs.Json.Document
import Loyalty.Proofs.Json.Lexing
import Loyalty.Proofs.Json.Record
import Loyalty.Proofs.Json.RoundTrip
import Loyalty.Proofs.Process.Account
import Loyalty.Proofs.Process.Arrangement
import Loyalty.Proofs.Process.Chronicle
import Loyalty.Proofs.Process.Company
import Loyalty.Proofs.Process.Composition
import Loyalty.Proofs.Process.Crowding
import Loyalty.Proofs.Process.Execution
import Loyalty.Proofs.Process.Family
import Loyalty.Proofs.Process.Footprint
import Loyalty.Proofs.Process.Grounds
import Loyalty.Proofs.Process.Hearing
import Loyalty.Proofs.Process.Interleaving
import Loyalty.Proofs.Process.Nesting
import Loyalty.Proofs.Process.Prompt
import Loyalty.Proofs.Process.Schedule
import Loyalty.Proofs.Process.Settlement
import Loyalty.Proofs.Process.Transcript
import Loyalty.Proofs.ReadModel.Asking
import Loyalty.Proofs.ReadModel.CatchingUp
import Loyalty.Proofs.ReadModel.Dating
import Loyalty.Proofs.ReadModel.Grounds
import Loyalty.Proofs.ReadModel.Image
import Loyalty.Proofs.ReadModel.Lagging
import Loyalty.Proofs.ReadModel.Newest
import Loyalty.Proofs.ReadModel.Prefix
import Loyalty.Proofs.ReadModel.Profile
import Loyalty.Proofs.ReadModel.Projection
import Loyalty.Proofs.ReadModel.Rebuilding
import Loyalty.Proofs.ReadModel.Resuming
import Loyalty.Proofs.ReadModel.Writing
import Loyalty.Proofs.Simulation.Admission
import Loyalty.Proofs.Simulation.Alone
import Loyalty.Proofs.Simulation.Linearization
import Loyalty.Proofs.Simulation.Passage
import Loyalty.Proofs.Simulation.Profiles
import Loyalty.Proofs.Simulation.Race
import Loyalty.Proofs.Simulation.Saving
import Loyalty.Proofs.Simulation.Sincerity
import Loyalty.Proofs.Simulation.Truth
import Loyalty.Proofs.Simulation.Turns
import Loyalty.Proofs.Stream.Balance
import Loyalty.Proofs.Stream.Commit
import Loyalty.Proofs.Stream.Dispatch
import Loyalty.Proofs.Stream.Growth
import Loyalty.Proofs.Stream.Ledger
import Loyalty.Proofs.Stream.Recovery
import Loyalty.Proofs.Stream.Recursion
import Loyalty.Proofs.Stream.Report
import Loyalty.Proofs.Stream.Rewards
import Loyalty.Proofs.Stream.Runtime
import Loyalty.Proofs.Stream.Serial
import Loyalty.Proofs.Stream.Undisturbed
import Loyalty.Proofs.Text.Digits
import Loyalty.Proofs.Text.Numeral
import Loyalty.Proofs.Time.Rfc3339
import Loyalty.Proofs.User.Acceptance
import Loyalty.Proofs.User.Completion
import Loyalty.Proofs.User.Decision
import Loyalty.Proofs.User.Fulfilment
import Loyalty.Proofs.User.Meaning
import Loyalty.Proofs.User.Replay
import Loyalty.Proofs.User.Repository
import Loyalty.Proofs.User.Resumption
import Loyalty.Proofs.User.Stopping
import Loyalty.Proofs.User.Storing
import Loyalty.ReadModel
import Loyalty.ReadModel.InPlace
import Loyalty.ReadModel.Projection
import Loyalty.Rounding
import Loyalty.Simulation.Run
import Loyalty.Simulation.Supply
import Loyalty.Simulation.World
import Loyalty.Text.Blank
import Loyalty.Text.Hidden
import Loyalty.Text.Numeral
import Loyalty.Text.Quoted
import Loyalty.Time.Calendar
import Loyalty.Time.Duration
import Loyalty.Time.Rfc3339
import Loyalty.Time.Timestamp
import Loyalty.User.Decision
import Loyalty.User.InPlace
import Loyalty.User.ReferralCode
import Loyalty.User.Replay
import Loyalty.User.Repository
import Loyalty.User.State
