import Aesd.ForStd.Interleave
import Aesd.Native.Connection

/-! # The server with the char device

`aesdsocket.c` in the build with `USE_AESD_CHAR_DEVICE` on top of the driver: any number of
connection threads, the mutex `g_write_mutex`, the driver, and the descriptors, which all
threads share. A descriptor is an open file of the device or a client's socket. What a
connection gets from its calls on the device is what the driver answers; what it receives is
left open, and so is what a call on a socket returns that was meant for the device.

The main thread only accepts clients here. Its list of threads is in `MainLoop`. -/

namespace Aesd

/-- What the threads share. `sockets` tells which descriptors are sockets of clients. -/
structure DeviceState where
  gWriteMutex : Mutex Nat
  driver : Driver
  sockets : Nat → Bool

/-- What the kernel grants the driver during a call: its allocations and the copy from user
    space in `aesd_write`, and the copy in `aesd_read` and `aesd_ioctl`. -/
structure DeviceOutcome where
  write : WriteOutcome
  copied : Bool

/-- Everything is granted. -/
def DeviceOutcome.ok : DeviceOutcome := ⟨.ok, true⟩

/-- What happens on a thread: it is created for a client, or makes a call. -/
inductive DeviceCall where
  | accept (myClient : Nat)
  | call (call : Call) (out : DeviceOutcome)

namespace DeviceState

/-- The driver is called, and answers as `answer` tells. -/
def driverCall (K : Kernel) (s : DeviceState) (op : Op) (answer : Ret → Bool) :
    Option DeviceState := do
  let (r, driver) ← s.driver.step K op
  if answer r then some { s with driver := driver } else none

/-- A call on descriptor `fd`. -/
def fileCall (K : Kernel) (s : DeviceState) (fd : Nat) (op : Op) (answer : Ret → Bool) :
    Option DeviceState :=
  if s.sockets fd then some s else s.driverCall K op answer

/-- `fd` is no descriptor of the process. -/
def Free (s : DeviceState) (fd : Nat) : Bool := !s.sockets fd && (s.driver.files fd).isNone

end DeviceState

namespace DeviceServer

/-- What a call of connection `i` does to what the threads share. -/
def deviceCall (K : Kernel) (i : Nat) (s : DeviceState) (out : DeviceOutcome) :
    Call → Option DeviceState
  | .openWrite (some fd) | .openRead (some fd) =>
    if s.Free fd then s.driverCall K (.open fd) fun r => r.val = fd else none
  | .ioctl fd seekto ok =>
    s.fileCall K fd (.ioctl fd aesdcharIocseekto seekto out.copied) fun r =>
      ok = decide (0 ≤ r.val)
  | .lock => do
    let m ← s.gWriteMutex.lock i
    some { s with gWriteMutex := m }
  | .write fd bytes ret =>
    s.fileCall K fd (.write fd bytes out.write) fun r => r.val = ret
  | .unlock => do
    let m ← s.gWriteMutex.unlock i
    some { s with gWriteMutex := m }
  | .read fd none => s.fileCall K fd (.read fd initialBufferSize out.copied) fun r => r.val < 0
  | .read fd (some bytes) =>
    s.fileCall K fd (.read fd initialBufferSize out.copied) fun r => 0 ≤ r.val ∧ r.data = bytes
  | .close (some fd) =>
    if s.sockets fd then some { s with sockets := Function.update s.sockets fd false }
    else s.driverCall K (.release fd) fun _ => true
  | _ => some s

/-- What happens on thread `i`, which is there once its client is accepted. -/
def step (K : Kernel) (C : Libc) (i : Nat) (s : DeviceState) (t : Option Conn) :
    DeviceCall → Option (DeviceState × Option Conn)
  | .accept myClient =>
    if t.isNone ∧ s.Free myClient then
      some ({ s with sockets := Function.update s.sockets myClient true },
        some (.start myClient))
    else none
  | .call call out =>
    match t with
    | none => none
    | some c => do
      let c ← c.step C call
      let s ← deviceCall K i s out call
      some (s, some c)

/-- The server. -/
def lts (K : Kernel) (C : Libc) : Lts (Threads Nat DeviceState (Option Conn)) (Nat × DeviceCall) :=
  .interleave (step K C)

/-- The server at its start, with the module just loaded. -/
def init : Threads Nat DeviceState (Option Conn) where
  shared := ⟨none, aesdInitModule, fun _ => false⟩
  locals _ := none

end DeviceServer

end Aesd
