import FrameRing.LittleEndian
import FrameRing.Address
import FrameRing.Memory.Window
import FrameRing.Memory.Host
import FrameRing.SourceRing.Error
import FrameRing.Entry
import FrameRing.Memory.Value
import FrameRing.Flags
import FrameRing.Layout
import FrameRing.Header
import FrameRing.Buffer
import FrameRing.Pool.Allocation
import FrameRing.Pool.Slab
import FrameRing.SlotTable
import FrameRing.Cursor
import FrameRing.Params
import FrameRing.Settings
import FrameRing.Ring.Error
import FrameRing.Log.Level
import FrameRing.Log.Event
import FrameRing.Log.Capture
import FrameRing.Host
import FrameRing.Pool.DmaBuffer
import FrameRing.Platform
import FrameRing.SourceRing.Basic
import FrameRing.SourceRing.Access
import FrameRing.SourceRing.Hardware
import FrameRing.Ring.Basic
import FrameRing.Ring.Attach
import FrameRing.Ring.Reap
import FrameRing.Ring.Describe
import FrameRing.Firmware
import FrameRing.Stack
import FrameRing.Scripted
import FrameRing.Proofs.Positions
import FrameRing.Proofs.SharedBytes
import FrameRing.Proofs.EntryFormat
import FrameRing.Proofs.SourceRing.Pointers
import FrameRing.Proofs.Frames
import FrameRing.Proofs.SlotTable
import FrameRing.Proofs.Ring.Outcomes
import FrameRing.Proofs.Ring.Runs
import FrameRing.Proofs.Ring.Discipline
import FrameRing.Proofs.Ring.Ledger
import FrameRing.Proofs.Ring.Custody
import FrameRing.Proofs.Pool.Ownership
import FrameRing.Proofs.SourceRing.Queue
import FrameRing.Proofs.SourceRing.Device
import FrameRing.Proofs.Stack.Memory
import FrameRing.Proofs.Stack.Delivery
import FrameRing.Proofs.Ring.SlotsInOrder
import FrameRing.Proofs.Stack.Flow
import FrameRing.Proofs.Stack.Passes
import FrameRing.Proofs.Stack.Service
import FrameRing.Proofs.Stack.Traffic
import FrameRing.Proofs.Pool.Tenancy
import FrameRing.Proofs.SourceRing.Fifo
import FrameRing.Proofs.SourceRing.DeviceMoves
import FrameRing.Proofs.Stack.SlotsMatchEntries
import FrameRing.Proofs.Stack.MultiRing
import FrameRing.Proofs.Ring.SectionInvariant
import FrameRing.Proofs.SourceRing.Soundness
import FrameRing.Proofs.Stack.WellFormed
import FrameRing.Proofs.Stack.Failures
import FrameRing.Proofs.Stack.Quiet
import FrameRing.Proofs.SourceRing.Footprint
import FrameRing.Proofs.Stack.Confinement
import FrameRing.Proofs.SourceRing.Alike
import FrameRing.Proofs.Stack.Pending
import FrameRing.Proofs.Stack.Indifference
import FrameRing.Proofs.Stack.Teardown
import FrameRing.Proofs.SourceRing.Publication
import FrameRing.Proofs.Notices
import FrameRing.Proofs.Ring.Bookkeeping
import FrameRing.Proofs.Ring.Growth
import FrameRing.Proofs.Ring.Meter
import FrameRing.Proofs.Pool.Marks
import FrameRing.Proofs.Stack.RingMemory
import FrameRing.Proofs.SourceRing.Mirror
import FrameRing.Proofs.SourceRing.Aim
import FrameRing.Proofs.SourceRing.MirrorDevice
import FrameRing.Proofs.Stack.Beside
import FrameRing.Proofs.Stack.Aiming
import FrameRing.Proofs.Stack.ByteOrder
import FrameRing.Proofs.SourceRing.Arming
import FrameRing.Proofs.SourceRing.TailCheck
import FrameRing.Proofs.Driven.Lockstep
import FrameRing.Proofs.Driven.Supply
import FrameRing.Proofs.Driven.Halts
import FrameRing.Proofs.Driven.PassMemory
import FrameRing.Proofs.Driven.PassOutcome
import FrameRing.Proofs.Driven.Fill
import FrameRing.Proofs.Pool.Loans
import FrameRing.Proofs.Stack.AttachOutcome
import FrameRing.Proofs.Pool.Requests
import FrameRing.Proofs.Pool.Returns
import FrameRing.Proofs.SourceRing.Threshold
import FrameRing.Proofs.Stack.HeadWord
import FrameRing.Proofs.Stack.Reporting
import FrameRing.Proofs.Stripping
import FrameRing.Proofs.Geometry
import FrameRing.Proofs.Configuration
import FrameRing.Proofs.SourceRing.Consumption
import FrameRing.Proofs.Cursor
import FrameRing.Proofs.EntryLimits
import FrameRing.Proofs.LastWritten
import FrameRing.Proofs.SlotCustody
