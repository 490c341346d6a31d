import Vzgot.Attend.Kill
import Vzgot.Boot.Cleanup
import Vzgot.Boot.Clearance
import Vzgot.Boot.Names
import Vzgot.Boot.PidFile
import Vzgot.Boot.Restart
import Vzgot.Boot.Sealed
import Vzgot.Cgroup.Monotone
import Vzgot.Command.Inject
import Vzgot.Command.Reach
import Vzgot.Config.Agree
import Vzgot.Cpu.Exact
import Vzgot.Cpu.Faithful
import Vzgot.Lock.Alone
import Vzgot.Lock.Exclusion
import Vzgot.Monitor.Healthy
import Vzgot.Scripts.LockFile
import Vzgot.Storage.Destroy
import Vzgot.Migration.SplitBrain
import Vzgot.Cpu.Count
import Vzgot.Monitor.Binding
import Vzgot.Monitor.Shutdown
import Vzgot.Status.Bandwidth
import Vzgot.Status.Share
import Vzgot.Status.Traffic
import Vzgot.Rebuild.Recreate
import Vzgot.Online.Layout
import Vzgot.Status.Cpustat
import Vzgot.Online.Live
import Vzgot.Config.Getstr
import Vzgot.Command.Vocabulary
import Vzgot.Attend.Monitoring
import Vzgot.Vector.Veclst
import Vzgot.Vector.Lstlst
import Vzgot.Rebuild.Lookup
import Vzgot.Scripts.HostStop
import Vzgot.Boot.Descriptors
import Vzgot.Online.Fresh
import Vzgot.Process.Childkill
import Vzgot.Syspvt.Handshake
import Vzgot.Signal.Delivered
import Vzgot.Log.Valert
import Vzgot.Cgroup.Clean
import Vzgot.Proc.Feed
import Vzgot.Migration.Flags
import Vzgot.Boot.Supervisors
import Vzgot.Boot.Devices
import Vzgot.Command.Dispatch
import Vzgot.Scripts.Network
import Vzgot.Rebuild.Booted
import Vzgot.Scripts.Listing
import Vzgot.Online.Uptime
