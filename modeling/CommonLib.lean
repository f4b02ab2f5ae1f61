import CommonLib.Container.SizedQueue
import CommonLib.Thread.Thread
import CommonLib.Thread.Worker
import CommonLib.Thread.ActiveRunnable
import CommonLib.Thread.Service
import CommonLib.Thread.Dispatch
import CommonLib.Thread.Shutdown
import CommonLib.Thread.Wakeup
import CommonLib.Thread.Restart
import CommonLib.Thread.Progress
import CommonLib.Thread.Runnable
import CommonLib.Thread.Teardown
