import Mymuduo.Http.CompleteHead
import Mymuduo.Http.FormFields
import Mymuduo.Http.HttpResponse
import Mymuduo.Http.Reset
import Mymuduo.Http.Served
import Mymuduo.Http.Session
import Mymuduo.Http.StaticFiles
import Mymuduo.Http.WholeRequest
import Mymuduo.Lib.Run
import Mymuduo.Log.Logger
import Mymuduo.Memory.BreakRun
import Mymuduo.Memory.ConcurrentRun
import Mymuduo.Memory.EnsureBytes
import Mymuduo.Memory.LinkedRun
import Mymuduo.Memory.ObjectPool
import Mymuduo.Memory.PageMerge
import Mymuduo.Memory.RadixRun
import Mymuduo.Memory.SlowStart
import Mymuduo.Memory.SpanList
import Mymuduo.Memory.SpanMemory
import Mymuduo.Net.CurrentThread
import Mymuduo.Net.EpollPoller
import Mymuduo.Net.EventLoopThread
import Mymuduo.Net.EventLoopThreadPool
import Mymuduo.Net.HalfClose
import Mymuduo.Net.LifecycleRun
import Mymuduo.Net.ReactorMirror
import Mymuduo.Net.SendString
import Mymuduo.Net.Withdrawn
import Mymuduo.Timers.RunAfter
