import FsccDriver.FramedReceive
import FsccDriver.SplitRead
import FsccDriver.StreamReceive
import FsccDriver.CopyBounds
import FsccDriver.Registers
import FsccDriver.FramedTransmit
import FsccDriver.OwnershipInterleaved
import FsccDriver.PortNumbers
import FsccDriver.TrackInterrupts
import FsccDriver.InterruptBits
import FsccDriver.TransmitStall
import FsccDriver.FifoRoom
import FsccDriver.TransmitPurge
import FsccDriver.AllSent
import FsccDriver.DmaReceive
import FsccDriver.RxProgress
import FsccDriver.ClockProgram
import FsccDriver.FrameWrite
import FsccDriver.RingStore
import FsccDriver.RingLife
import FsccDriver.Purge
import FsccDriver.Requests
import FsccDriver.RequestHandlers
import FsccDriver.RequestRefs
import FsccDriver.RequestOwners
import FsccDriver.ReadOverlap
import FsccDriver.MultiRead
import FsccDriver.ClockEncoder
import FsccDriver.WordTransfer
import FsccDriver.WriteAdmission
import FsccDriver.CardResources
import FsccDriver.ClockSolver
import FsccDriver.TransmitWords
import FsccDriver.PortDefaults
import FsccDriver.PortOptions
import FsccDriver.DmaStamps
import FsccDriver.RequestOrder
import FsccDriver.RequestThreads
import FsccDriver.PortIsolation
import FsccDriver.PortRings
import FsccDriver.PortRestart
import FsccDriver.CreatedRings
