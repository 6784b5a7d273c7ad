import Aesd.ForStd.Interleave
import Aesd.ForStd.OpenFile
import Aesd.Native.Connection

/-! # The server with a data file

`aesdsocket.c` in the build without `USE_AESD_CHAR_DEVICE`: any number of connection threads and
the main thread, the mutex `g_write_mutex`, the data file, and the handler of `SIGALRM`,
`insert_timestamp`. A connection opens the data file for itself, so it has its own position in
it. The signal may be delivered to any thread between two of its calls; the handler then runs on
that thread, and the thread goes on after it.

Descriptors are those of the thread that opened them. That a number may by then belong to
somebody else is left out here. -/

namespace Aesd

/-! ## `insert_timestamp` -/

/-- Where the handler is: before which call. -/
inductive TimestampPc where
  | lock
  | open
  | write (fd : Nat)
  | close (fd : Nat)
  | unlock
  deriving DecidableEq, Repr

/-- The handler on a thread: its `timestamp_buffer` and the file it has opened. -/
structure InsertTimestamp where
  pc : TimestampPc
  timestampBuffer : List UInt8
  file : OpenFile
  deriving DecidableEq, Repr

/-! ## The threads -/

/-- What a thread runs when no handler does. The calls of the main thread concern neither the
    mutex nor the data file. -/
inductive FileBody where
  | notStarted
  | main
  | connection (c : Conn)
  deriving DecidableEq, Repr

/-- A thread: what it runs, the files that it has open for writing and for reading, and the
    handler, if a signal was delivered to it. -/
structure FileThread where
  body : FileBody
  fileWrite : OpenFile
  fileRead : OpenFile
  handler : Option InsertTimestamp
  deriving DecidableEq, Repr

/-- What the threads share: the mutex and the contents of the data file. The main thread has
    the name `none`. -/
structure FileState where
  gWriteMutex : Mutex (Option Nat)
  dataFile : List UInt8
  deriving DecidableEq, Repr

/-- What happens on a thread: it is created for a client, makes a call, gets the signal at the
    time that `timestamp` tells, or its handler makes a call. -/
inductive FileCall where
  | create (myClient : Nat)
  | call (call : Call)
  | sigalrm (timestamp : List UInt8)
  | handler (call : Call)
  deriving DecidableEq, Repr

namespace FileServer

/-- A file opened without `O_APPEND`. -/
def atStart : OpenFile := ⟨0, false⟩

/-- A file opened with `O_APPEND`. -/
def appending : OpenFile := ⟨0, true⟩

/-- `write` of as many of the `bytes` as it returns. -/
def writeFile (s : FileState) (f : OpenFile) (bytes : List UInt8) (ret : Int) :
    Option (FileState × OpenFile) :=
  if ret ≤ bytes.length then
    let (dataFile, f) := f.write s.dataFile (bytes.take ret.toNat)
    some ({ s with dataFile := dataFile }, f)
  else none

/-- One call of a handler on thread `i`, which is gone after its last one. -/
def insertTimestamp (i : Option Nat) (s : FileState) (h : InsertTimestamp) (call : Call) :
    Option (FileState × Option InsertTimestamp) :=
  match h.pc, call with
  | .lock, .lock => do
    let m ← s.gWriteMutex.lock i
    some ({ s with gWriteMutex := m }, some { h with pc := .open })
  | .open, .openWrite none => some (s, some { h with pc := .unlock })
  | .open, .openWrite (some fd) => some (s, some { h with pc := .write fd, file := appending })
  | .write fd, .write fd' bytes ret =>
    if fd' = fd ∧ bytes = h.timestampBuffer then do
      let (s, file) ← writeFile s h.file bytes ret
      some (s, some { h with pc := .close fd, file := file })
    else none
  | .close fd, .close (some fd') =>
    if fd' = fd then some (s, some { h with pc := .unlock }) else none
  | .unlock, .unlock => do
    let m ← s.gWriteMutex.unlock i
    some ({ s with gWriteMutex := m }, none)
  | _, _ => none

/-- What a call of the connection on thread `i` does to the mutex and to the files. The data
    file knows no `ioctl`. -/
def connectionCall (i : Option Nat) (s : FileState) (t : FileThread) :
    Call → Option (FileState × FileThread)
  | .openWrite (some _) => some (s, { t with fileWrite := atStart })
  | .openRead (some _) => some (s, { t with fileRead := atStart })
  | .ioctl _ _ ok => if ok then none else some (s, t)
  | .lock => do
    let m ← s.gWriteMutex.lock i
    some ({ s with gWriteMutex := m }, t)
  | .unlock => do
    let m ← s.gWriteMutex.unlock i
    some ({ s with gWriteMutex := m }, t)
  | .write _ bytes ret => do
    let (s, file) ← writeFile s t.fileWrite bytes ret
    some (s, { t with fileWrite := file })
  | .read _ (some bytes) =>
    let (bytes', file) := t.fileRead.read s.dataFile initialBufferSize
    if bytes = bytes' then some (s, { t with fileRead := file }) else none
  | _ => some (s, t)

/-- A thread that can be interrupted: it runs, and it is not in the handler. -/
def Interruptible (t : FileThread) : Bool :=
  t.handler.isNone &&
    match t.body with
    | .notStarted => false
    | .main => true
    | .connection c => c.pc != .returned

/-- What happens on thread `i`. -/
def step (C : Libc) (i : Option Nat) (s : FileState) (t : FileThread) :
    FileCall → Option (FileState × FileThread)
  | .create myClient =>
    if t.body = .notStarted then some (s, { t with body := .connection (.start myClient) })
    else none
  | .call call =>
    match t.handler, t.body with
    | none, .connection c => do
      let c ← c.step C call
      let (s, t) ← connectionCall i s t call
      some (s, { t with body := .connection c })
    | _, _ => none
  | .sigalrm timestamp =>
    if Interruptible t then some (s, { t with handler := some ⟨.lock, timestamp, appending⟩ })
    else none
  | .handler call =>
    match t.handler with
    | none => none
    | some h => do
      let (s, h) ← insertTimestamp i s h call
      some (s, { t with handler := h })

/-- The server. -/
def lts (C : Libc) : Lts (Threads (Option Nat) FileState FileThread) (Option Nat × FileCall) :=
  .interleave (step C)

/-- The server at its start, with an empty data file. -/
def init : Threads (Option Nat) FileState FileThread where
  shared := ⟨none, []⟩
  locals i := ⟨if i.isNone then .main else .notStarted, atStart, atStart, none⟩

end FileServer

end Aesd
