import EmbeddedLinux.Chat.Startup
import EmbeddedLinux.Chat.Table
import EmbeddedLinux.Chat.ThreadArg
import EmbeddedLinux.Chat.Stream
import EmbeddedLinux.Chat.ClosedOnce
import EmbeddedLinux.Chat.Shutdown
import EmbeddedLinux.Chat.Handlers
import EmbeddedLinux.Chat.Atomic
import EmbeddedLinux.Chat.Connect
import EmbeddedLinux.Chat.Buffers
import EmbeddedLinux.Restaurant.Service
import EmbeddedLinux.Restaurant.Status
import EmbeddedLinux.ConditionVar.Ends
import EmbeddedLinux.Process.ForkAndWait
import EmbeddedLinux.Process.Zombie
import EmbeddedLinux.Process.Orphan
import EmbeddedLinux.Process.Exec
import EmbeddedLinux.SigintHandler.Count
import EmbeddedLinux.SigalrmTimer.Timer
import EmbeddedLinux.SignalInput.Input
import EmbeddedLinux.TaskQueue.Worker
import EmbeddedLinux.TaskQueue.Dispatcher
import EmbeddedLinux.TaskQueue.Order
import EmbeddedLinux.RaceCondition.Ends
import EmbeddedLinux.RwLock.Turns
import EmbeddedLinux.ParentChild.Ends
import EmbeddedLinux.SharedMem.Product
import EmbeddedLinux.IpcSocket.Ipv4Dgram
import EmbeddedLinux.IpcSocket.UnixDgram
import EmbeddedLinux.MgpioReg.Ready
import EmbeddedLinux.MgpioReg.Life
import EmbeddedLinux.MgpioInteger.Life
import EmbeddedLinux.MgpioDesc.Devices
import EmbeddedLinux.MgpioDesc.Whole
import EmbeddedLinux.MgpioDesc.Read
import EmbeddedLinux.MgpioDesc.Load
import EmbeddedLinux.MyDevice.Life
import EmbeddedLinux.Pthread.Joined
import EmbeddedLinux.StrUtils.Compose
import EmbeddedLinux.IpcPipe.Flow
