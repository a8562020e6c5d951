import Ferry.Session.Conversion
import Ferry.Session.Direct
import Ferry.Session.Handles
import Ferry.Session.Planning
import Ferry.Settings.Discovery
import Ferry.Proofs.Memory.Reading
import Ferry.Proofs.Memory.Evolution
import Ferry.Proofs.Plan.Classification
import Ferry.Proofs.Engine.Running
import Ferry.Proofs.Plan.Obtained
import Ferry.Proofs.Call.Running
import Ferry.Proofs.Call.Building
import Ferry.Proofs.Marshal.Conversions
import Ferry.Proofs.Call.Cells
import Ferry.Proofs.Call.Turns
import Ferry.Proofs.Call.Layout
import Ferry.Proofs.Call.Execution
import Ferry.Proofs.Call.Outputs
import Ferry.Proofs.Engine.Ledger
import Ferry.Proofs.Marshal.Freeing
import Ferry.Proofs.Marshal.Across
import Ferry.Proofs.Marshal.Making
import Ferry.Proofs.Call.Carrying
import Ferry.Proofs.Call.Reclaiming
import Ferry.Proofs.Call.FailedBuild
import Ferry.Proofs.Marshal.Dropping
import Ferry.Proofs.Plan.Bookkeeping
import Ferry.Proofs.Plan.Visibility
import Ferry.Proofs.Native.Integers
import Ferry.Proofs.Call.LinkedLengths
import Ferry.Proofs.Marshal.Parts
import Ferry.Proofs.Marshal.Discarding
import Ferry.Proofs.Marshal.Counts
import Ferry.Proofs.Call.Gathering
import Ferry.Proofs.Call.Handover
import Ferry.Proofs.Call.Lending
import Ferry.Proofs.Callback.Answering
import Ferry.Proofs.Call.Balance
import Ferry.Proofs.Call.Delivery
import Ferry.Proofs.Call.Buffers
import Ferry.Proofs.Engine.Untouched
import Ferry.Proofs.Marshal.Quiet
import Ferry.Proofs.Plan.Keeping
import Ferry.Proofs.Callback.Changes
import Ferry.Proofs.Callback.Custody
import Ferry.Proofs.Callback.Paths
import Ferry.Proofs.Callback.Frames
import Ferry.Proofs.Callback.Runs
import Ferry.Proofs.Callback.Trampolines
import Ferry.Proofs.Callback.LifeCycles
import Ferry.Proofs.Session.Outside
import Ferry.Proofs.Plan.Cache
import Ferry.Proofs.Marshal.Admission
import Ferry.Proofs.Call.Checking
import Ferry.Proofs.Call.ArrayLengths
import Ferry.Proofs.Text.Utf8
import Ferry.Proofs.Marshal.ReadingBack
import Ferry.Proofs.Marshal.RoundTrip
import Ferry.Proofs.Call.Flags
import Ferry.Proofs.Call.Sizing
import Ferry.Proofs.Call.Dangling
import Ferry.Proofs.Marshal.Demands
import Ferry.Proofs.Marshal.Undoing
import Ferry.Proofs.Call.Ranges
import Ferry.Proofs.Call.Reporting
import Ferry.Proofs.Callback.Contract
import Ferry.Proofs.Callback.Lent
import Ferry.Proofs.Call.Suppressed
import Ferry.Proofs.Plan.Dispatch
import Ferry.Proofs.Marshal.Terminators
import Ferry.Proofs.Memory.Bytes
import Ferry.Proofs.Structures.Fields
import Ferry.Proofs.Structures.Steps
import Ferry.Proofs.Structures.Owners
import Ferry.Proofs.Structures.Lifetimes
import Ferry.Proofs.Native.Words
import Ferry.Proofs.Marshal.Lengths
import Ferry.Proofs.Callback.Passing
