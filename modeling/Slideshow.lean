import Slideshow.Local.Render
import Slideshow.Offline
import Slideshow.Options.Overrides
import Slideshow.Proofs.Audio.Fit
import Slideshow.Proofs.Decimal.Double
import Slideshow.Proofs.Decimal.Printed
import Slideshow.Proofs.Fetch.Together
import Slideshow.Proofs.Filter.Acceptance
import Slideshow.Proofs.Filter.Build
import Slideshow.Proofs.Filter.Compile
import Slideshow.Proofs.Filter.Exchange
import Slideshow.Proofs.Filter.Flow
import Slideshow.Proofs.Filter.Mention
import Slideshow.Proofs.Filter.Picture
import Slideshow.Proofs.Filter.Reading
import Slideshow.Proofs.Filter.Refusal
import Slideshow.Proofs.Job.Arrival
import Slideshow.Proofs.Job.Batches
import Slideshow.Proofs.Job.Outputs
import Slideshow.Proofs.Job.Scatter
import Slideshow.Proofs.Job.Wire
import Slideshow.Proofs.Json.Text
import Slideshow.Proofs.Program.System
import Slideshow.Proofs.Queue.Dispatch
import Slideshow.Proofs.Queue.Removal
import Slideshow.Proofs.Queue.Wire
import Slideshow.Proofs.Render.Arguments
import Slideshow.Proofs.Render.Batched
import Slideshow.Proofs.Render.Binding
import Slideshow.Proofs.Render.Operands
import Slideshow.Proofs.Render.Plan
import Slideshow.Proofs.Render.Timing
import Slideshow.Proofs.Render.Whole
import Slideshow.Proofs.Scene.Accepted
import Slideshow.Proofs.Scene.Aspect
import Slideshow.Proofs.Scene.Assemble
import Slideshow.Proofs.Scene.Assembly
import Slideshow.Proofs.Scene.Connected
import Slideshow.Proofs.Scene.Duration
import Slideshow.Proofs.Scene.Frame
import Slideshow.Proofs.Scene.Printable
import Slideshow.Proofs.Scene.Timeline
import Slideshow.Proofs.Service.Submit
import Slideshow.Proofs.Store.Contest
import Slideshow.Proofs.Store.Ledger
import Slideshow.Proofs.Store.Missing
import Slideshow.Proofs.Store.RoundTrip
import Slideshow.Proofs.Worker.Completion
import Slideshow.Proofs.Worker.Disposal
import Slideshow.Proofs.Worker.Executor
import Slideshow.Proofs.Worker.Finality
import Slideshow.Proofs.Worker.Frame
import Slideshow.Proofs.Worker.Handle
import Slideshow.Proofs.Worker.Holdings
import Slideshow.Proofs.Worker.Limits
import Slideshow.Proofs.Worker.Memory
import Slideshow.Proofs.Worker.Missing
import Slideshow.Proofs.Worker.OnePass
import Slideshow.Proofs.Worker.Outcome
import Slideshow.Proofs.Worker.Ownership
import Slideshow.Proofs.Worker.Rehearsal
import Slideshow.Proofs.Worker.Request
import Slideshow.Proofs.Worker.Resplit
import Slideshow.Proofs.Worker.Series
import Slideshow.Proofs.Worker.Split
import Slideshow.Proofs.Worker.Track
import Slideshow.Queue.Address
import Slideshow.Render.Runner
import Slideshow.Report.Error
import Slideshow.Report.Job
import Slideshow.Report.Media
import Slideshow.Service.Backend
import Slideshow.Service.Memory
import Slideshow.Service.Router
import Slideshow.Store.Rehearsal
import Slideshow.Worker.Executor
import Slideshow.Proofs.Store.Retry
import Slideshow.Proofs.Render.Progress
import Slideshow.Proofs.Store.Repetition
import Slideshow.Proofs.Store.Token
import Slideshow.Proofs.Filter.Handout
import Slideshow.Proofs.Blob.Server
import Slideshow.Proofs.Render.Script
