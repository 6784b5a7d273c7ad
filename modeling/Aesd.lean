import Aesd.ForStd.Lts
import Aesd.Native.FileServer
import Aesd.Native.MainLoop
import Aesd.Spec.Registry
import Aesd.Spec.DescriptorOwnership
import Aesd.Spec.MainLoopStep
import Aesd.Native.Threading
import Aesd.Spec.LockBalance
import Aesd.Spec.DataFile
import Aesd.Spec.StreamCorrect
import Aesd.Spec.ReadBack
import Aesd.Spec.WriteAtomic
import Aesd.Spec.Ownership
import Aesd.Spec.RecvRoom
import Aesd.Spec.RingHistory
import Aesd.Spec.SeekCorrect
import Aesd.Spec.SeekGrammar
import Aesd.Spec.LineConsumed
import Aesd.Spec.Segmentation
import Aesd.Native.DeviceServer
import Aesd.Spec.DeviceStep
import Aesd.Spec.PacketIsolation
import Aesd.Spec.LineLog
import Aesd.Spec.Session
import Aesd.Spec.SessionProgress
import Aesd.Spec.LogRefinement
import Aesd.Spec.DeviceFiles
import Aesd.Spec.Snapshot
import Aesd.Spec.LogDevice
import Aesd.Spec.WriteMutex
import Aesd.Spec.ExactlyOnce
import Aesd.Spec.Shutdown
import Aesd.Spec.FileIsolation
import Aesd.Spec.MutexProgress
import Aesd.Spec.FileAnswers
import Aesd.Native.Signals
import Aesd.Native.Startup
import Aesd.Spec.SignalEnds
import Aesd.Spec.StartupOutcome
import Aesd.Native.SystemCalls
import Aesd.Spec.ExecOutcome
import Aesd.ForStd.Slist
import Aesd.Native.LinkedServer
import Aesd.Spec.SlistCorrect
import Aesd.Spec.CriticalSections
