import Ooows.Lib.Run
import Ooows.Lib.Path
import Ooows.Lib.Bits
import Ooows.Lib.ByteMem
import Ooows.Lib.Strided
import Ooows.P9.Host
import Ooows.P9.QidObject
import Ooows.P9.Request
import Ooows.P9.Step
import Ooows.P9.Fids
import Ooows.P9.Share
import Ooows.P9.Loops
import Ooows.HyperO.Ept
import Ooows.HyperO.Isolation
import Ooows.HyperO.FiniteMap
import Ooows.Net.Types
import Ooows.Net.Assembler
import Ooows.Net.Firmware
import Ooows.Net.Microengine
import Ooows.Net.NetDev
import Ooows.Net.Analysis
import Ooows.Net.Soundness
import Ooows.Net.Jobs
import Ooows.Net.Queues
import Ooows.Net.Interpreter
import Ooows.Net.Confinement
import Ooows.Lib.CellQueue
import Ooows.Ogx.Enclave
import Ooows.Ogx.Isolation
import Ooows.Ogx.Answers
import Ooows.Virtio.AvailRing
import Ooows.Virtio.Ready
import Ooows.Virtio.UsedRing
import Ooows.Virtio.Setup
import Ooows.Lib.Wire
import Ooows.P9.Answer
import Ooows.P9.Atomic
import Ooows.P9.Decode
import Ooows.P9.Device
import Ooows.P9.Guest
import Ooows.Bus.Channels
import Ooows.Bus.Config
import Ooows.Bus.Pio
import Ooows.Bus.Routing
import Ooows.Kernel.HeapSafety
import Ooows.Lib.Latch
import Ooows.Net.Requests
import Ooows.Net.Layout
import Ooows.Net.Phy
import Ooows.Net.Schedule
import Ooows.Net.Fetch
import Ooows.Net.Isolation
import Ooows.Smp.Delivery
import Ooows.Smp.Shutdown
import Ooows.Smp.Startup
import Ooows.Vga
import Ooows.BufferUse
import Ooows.Disk
import Ooows.P9.Walk
import Ooows.P9.QidPath
import Ooows.HyperO.Ranges
import Ooows.HyperO.Mov
import Ooows.HyperO.PortIo
import Ooows.Smp.Redirection
import Ooows.Smp.PendingQueue
import Ooows.P9.Access
import Ooows.Virtio.Region
import Ooows.Kvm.Segment
import Ooows.Web.Video
import Ooows.Net.ByteMerge
import Ooows.Net.LongAddition
import Ooows.Ogx.Faults
import Ooows.Ogx.Drain
import Ooows.Net.ConfigSpace
import Ooows.Kernel.Coalesce
import Ooows.Net.Meaning
import Ooows.HyperO.Vmcs
import Ooows.Serial
