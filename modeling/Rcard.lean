import Rcard.Arena.Alloc
import Rcard.Arena.Wrap
import Rcard.Debug.Matching
import Rcard.Debug.Poison
import Rcard.Debug.Resync
import Rcard.Executor.Timers
import Rcard.Fs.Folders
import Rcard.Fs.Mounts
import Rcard.Host.BitErrors
import Rcard.Host.Damage
import Rcard.Host.Poison
import Rcard.Host.Retransmit
import Rcard.IpcRuntime.RoundTrip
import Rcard.Kernel.Tasks
import Rcard.Lcpu.Hci
import Rcard.Log.Cut
import Rcard.Log.Recovery
import Rcard.Log.Replies
import Rcard.Log.Reuse
import Rcard.Log.Sink
import Rcard.Log.Writer
import Rcard.Memory.Fns
import Rcard.Memory.HeapRuns
import Rcard.Memory.Hibernation
import Rcard.Places.Boot
import Rcard.Places.Bounds
import Rcard.Places.Coverage
import Rcard.Places.Layout
import Rcard.Proto.Checked
import Rcard.Reactor.Wakeup
import Rcard.Server.Clones
import Rcard.Server.Interval
import Rcard.Server.Ownership
import Rcard.Server.Restart
import Rcard.Storage.Partition
import Rcard.Storage.RingWriter
import Rcard.Tfw.MemSize
import Rcard.Tfw.Sound
import Rcard.Tunnel.Fob
import Rcard.Tunnel.Stale
import Rcard.Tunnel.Writeback
import Rcard.Usb.Sessions
