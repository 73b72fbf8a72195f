import ServiceHost.App.Builder
import ServiceHost.App.Call
import ServiceHost.App.Require
import ServiceHost.Context
import ServiceHost.Decimal.Binary
import ServiceHost.Decimal.Layout
import ServiceHost.Decimal.Reader
import ServiceHost.Decimal.Shortest
import ServiceHost.Duration
import ServiceHost.Failure
import ServiceHost.Graph.Args
import ServiceHost.Graph.Basic
import ServiceHost.Graph.Check
import ServiceHost.Graph.Describe
import ServiceHost.Graph.Error
import ServiceHost.Graph.Inputs
import ServiceHost.Graph.Key
import ServiceHost.Graph.Program
import ServiceHost.Graph.Resolve
import ServiceHost.Graph.Thread
import ServiceHost.Lifecycle.Basic
import ServiceHost.Lifecycle.Coordinator
import ServiceHost.Lifecycle.Error
import ServiceHost.Lifecycle.Hook
import ServiceHost.Lifecycle.Pass
import ServiceHost.Lifecycle.Record
import ServiceHost.Proofs.App.Assembly
import ServiceHost.Proofs.App.Calls
import ServiceHost.Proofs.App.Chain
import ServiceHost.Proofs.App.Contention
import ServiceHost.Proofs.App.Contexts
import ServiceHost.Proofs.App.Frames
import ServiceHost.Proofs.App.FullReport
import ServiceHost.Proofs.App.GivenUp
import ServiceHost.Proofs.App.Host
import ServiceHost.Proofs.App.Registrations
import ServiceHost.Proofs.App.Requests
import ServiceHost.Proofs.App.Rollback
import ServiceHost.Proofs.App.Run
import ServiceHost.Proofs.App.StopFailures
import ServiceHost.Proofs.App.TimeoutReport
import ServiceHost.Proofs.App.TypedAccess
import ServiceHost.Proofs.App.Winner
import ServiceHost.Proofs.Context.Family
import ServiceHost.Proofs.Context.Wait
import ServiceHost.Proofs.Graph.Advance
import ServiceHost.Proofs.Graph.Agreement
import ServiceHost.Proofs.Graph.Alignment
import ServiceHost.Proofs.Graph.Arguments
import ServiceHost.Proofs.Graph.Attempts
import ServiceHost.Proofs.Graph.Blame
import ServiceHost.Proofs.Graph.Build
import ServiceHost.Proofs.Graph.Cached
import ServiceHost.Proofs.Graph.Caches
import ServiceHost.Proofs.Graph.CallOrder
import ServiceHost.Proofs.Graph.Closure
import ServiceHost.Proofs.Graph.Conduct
import ServiceHost.Proofs.Graph.Confined
import ServiceHost.Proofs.Graph.Crew
import ServiceHost.Proofs.Graph.Deeds
import ServiceHost.Proofs.Graph.Descent
import ServiceHost.Proofs.Graph.Effects
import ServiceHost.Proofs.Graph.Evaluation
import ServiceHost.Proofs.Graph.History
import ServiceHost.Proofs.Graph.Invocation
import ServiceHost.Proofs.Graph.Journal
import ServiceHost.Proofs.Graph.Ledger
import ServiceHost.Proofs.Graph.Missed
import ServiceHost.Proofs.Graph.Needs
import ServiceHost.Proofs.Graph.Nesting
import ServiceHost.Proofs.Graph.Notices
import ServiceHost.Proofs.Graph.Origins
import ServiceHost.Proofs.Graph.Postorder
import ServiceHost.Proofs.Graph.Precheck
import ServiceHost.Proofs.Graph.Recovery
import ServiceHost.Proofs.Graph.Reentry
import ServiceHost.Proofs.Graph.Registry
import ServiceHost.Proofs.Graph.Retry
import ServiceHost.Proofs.Graph.Search
import ServiceHost.Proofs.Graph.Singleton
import ServiceHost.Proofs.Graph.Softened
import ServiceHost.Proofs.Graph.Thread
import ServiceHost.Proofs.Graph.Trace
import ServiceHost.Proofs.Graph.Trust
import ServiceHost.Proofs.Graph.Walks
import ServiceHost.Proofs.Lifecycle.Course
import ServiceHost.Proofs.Lifecycle.Cycle
import ServiceHost.Proofs.Lifecycle.Failures
import ServiceHost.Proofs.Lifecycle.Gate
import ServiceHost.Proofs.Lifecycle.Line
import ServiceHost.Proofs.Lifecycle.RecordReport
import ServiceHost.Proofs.Lifecycle.Remains
import ServiceHost.Proofs.Lifecycle.Reports
import ServiceHost.Proofs.Lifecycle.Running
import ServiceHost.Proofs.Lifecycle.Sequence
import ServiceHost.Proofs.Lifecycle.Serial
import ServiceHost.Proofs.Lifecycle.StartPass
import ServiceHost.Proofs.Lifecycle.Status
import ServiceHost.Proofs.Lifecycle.StopPass
import ServiceHost.Proofs.Lifecycle.Stretch
import ServiceHost.Proofs.Lifecycle.Symmetry
import ServiceHost.Proofs.Settings.Acceptance
import ServiceHost.Proofs.Settings.Grammar
import ServiceHost.Proofs.Settings.Members
import ServiceHost.Proofs.Settings.Stored
import ServiceHost.Proofs.Settings.Tokens
import ServiceHost.Proofs.Shutdown.Delivery
import ServiceHost.Rehearsal.Activity
import ServiceHost.Rehearsal.Answer
import ServiceHost.Rehearsal.Components
import ServiceHost.Rehearsal.Forest
import ServiceHost.Rehearsal.Frame
import ServiceHost.Rehearsal.Play
import ServiceHost.Rehearsal.Script
import ServiceHost.Rehearsal.Session
import ServiceHost.Rehearsal.Waiting
import ServiceHost.Rehearsal.World
import ServiceHost.Settings.Json
import ServiceHost.Settings.Number
import ServiceHost.Settings.Reader
import ServiceHost.Settings.Store
import ServiceHost.Settings.Timeouts
import ServiceHost.Shutdown
import ServiceHost.Text.Blank
import ServiceHost.Text.JsonText
import ServiceHost.Text.Numeral
import ServiceHost.Text.Printable
import ServiceHost.Text.Quoted
