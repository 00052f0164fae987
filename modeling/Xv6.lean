import Xv6.Lib.Writes
import Xv6.Lib.Run
import Xv6.Lib.Returns
import Xv6.Lib.Bytes
import Xv6.Block
import Xv6.Log.Commit
import Xv6.Log.CrashAtomic
import Xv6.Log.Protocol
import Xv6.Log.GroupCommit
import Xv6.Log.Reservation
import Xv6.Bio.Cache
import Xv6.Bio.Refinement
import Xv6.Bio.List
import Xv6.Bio.Exhaustion
import Xv6.Process.Safety
import Xv6.Process.Permissions
import Xv6.Process.ExitWait
import Xv6.Pipe
import Xv6.Inode.Reuse
import Xv6.Fs.RefCalls
import Xv6.Fs.Bmap
import Xv6.Fs.Files
import Xv6.Fs.SharedOffset
import Xv6.Fs.Transact
import Xv6.Mem.TableMap
import Xv6.Mem.Memmove
import Xv6.Process.Kill
import Xv6.Virtio.Requests
import Xv6.Sched.Wakeup
import Xv6.Sched.Killed
import Xv6.Sched.Sleeplock
import Xv6.Mkfs.Consistent
import Xv6.Fs.RoundTrip
import Xv6.Shell.Parsecmd
import Xv6.Shell.Run
import Xv6.Process.Failure
import Xv6.Process.PipeLife
import Xv6.Process.PipeRead
import Xv6.Process.Program
import Xv6.Process.ExecImage
import Xv6.Process.UserMemory
import Xv6.Malloc.Malloc
import Xv6.Process.UserCopy
