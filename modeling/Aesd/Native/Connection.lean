import Aesd.Native.Driver

/-! # The server's connection thread

`thread_connection_wrapper` and `handle_connection` of `aesdsocket.c`, in the build with
`USE_AESD_CHAR_DEVICE`. A thread is a machine that goes from one system call to the next. The
labels of its transitions are the calls with their arguments and what they return, so a
sequence of labels is what a trace of the thread shows. What lies between two calls is
computed within a transition.

The packet buffer is given by its allocated size, with `none` for `NULL`, and by its first
`packet_length` bytes. A transition does not ask whether the buffer has room for what `recv`
stores; that is a question about the thread, not a part of what it does. -/

namespace Aesd

/-- `INITIAL_BUFFER_SIZE`. -/
abbrev initialBufferSize : Nat := 512

/-- The bytes of `AESDCHAR_IOCSEEKTO:`. -/
def seekPrefix : List UInt8 :=
  [65, 69, 83, 68, 67, 72, 65, 82, 95, 73, 79, 67, 83, 69, 69, 75, 84, 79, 58]

/-! ## `sscanf` of `"%u,%u"` -/

/-- What a C library does where the standard leaves `%u` open: with a minus sign (`true`), or
    with a number that is no `unsigned int`. -/
structure Libc where
  outOfRange : Bool → Nat → UInt32

/-- The GNU C library converts with `strtoul` and keeps the low half of the result. -/
def Libc.glibc : Libc where
  outOfRange negative n :=
    if 2 ^ 64 ≤ n then 0xFFFFFFFF else UInt32.ofNat (if negative then 2 ^ 64 - n else n)

/-- `isspace`, in the `C` locale. -/
def isSpace (b : UInt8) : Bool := b == 32 || (9 ≤ b && b ≤ 13)

/-- `isdigit`. -/
def isDigit (b : UInt8) : Bool := 48 ≤ b && b ≤ 57

/-- The number a string of decimal digits stands for. -/
def digitsValue (digits : List UInt8) : Nat :=
  digits.foldl (fun n b => 10 * n + (b.toNat - 48)) 0

/-- An optional sign. -/
def scanSign : List UInt8 → Bool × List UInt8
  | 45 :: s => (true, s)
  | 43 :: s => (false, s)
  | s => (false, s)

/-- The conversion `%u`: the value, and what follows it. -/
def scanUnsigned (C : Libc) (s : List UInt8) : Option (UInt32 × List UInt8) :=
  let (negative, s) := scanSign (s.dropWhile isSpace)
  let digits := s.takeWhile isDigit
  if digits = [] then none
  else
    let n := digitsValue digits
    some (if !negative && n < 2 ^ 32 then UInt32.ofNat n else C.outOfRange negative n,
      s.dropWhile isDigit)

/-- `sscanf(s, "%u,%u", &write_cmd, &write_cmd_offset)`, if both conversions are made. -/
def scanSeek (C : Libc) (s : List UInt8) : Option AesdSeekto := do
  let (writeCmd, s) ← scanUnsigned C s
  match s with
  | 44 :: s => do
    let (writeCmdOffset, _) ← scanUnsigned C s
    some ⟨writeCmd, writeCmdOffset⟩
  | _ => none

/-! ## The thread -/

/-- Where a thread is: before which call. -/
inductive Pc where
  | openWrite
  | loopTop
  | malloc
  | recv
  | realloc
  | ioctl (seekto : AesdSeekto)
  | seekRead
  | seekSend
  | lock
  | write
  | unlockFailed
  | unlock
  | openRead
  | readBack
  | sendBack
  | closeSendFailed
  | closeRead
  | closeTail
  | setDone
  | closeClient
  | returned
  deriving DecidableEq, Repr

/-- The calls of a thread, with what they return: `none` for a failure, and for the end of a
    file the empty list. `recv` also tells what lies in memory behind the packet, which
    `sscanf` reads when it meets no end in the packet. -/
inductive Call where
  | openWrite (fd : Option Nat)
  | exitFlag (set : Bool)
  | malloc (granted : Bool)
  | recv (chunk : Option (List UInt8)) (beyond : List UInt8)
  | realloc (granted : Bool)
  | ioctl (fd : Nat) (seekto : AesdSeekto) (ok : Bool)
  | lock
  | write (fd : Nat) (bytes : List UInt8) (ret : Int)
  | unlock
  | openRead (fd : Option Nat)
  | read (fd : Nat) (bytes : Option (List UInt8))
  | send (bytes : List UInt8) (ok : Bool)
  | close (fd : Option Nat)
  | setDone
  deriving DecidableEq, Repr

/-- The local variables of a thread. `none` stands for `NULL`, and for the descriptor `-1`.
    `gMyFileWrite` is the parameter that shadows the global of this name, and `readFailed`
    tells that `reader_bytes_read` is negative. -/
structure Conn where
  pc : Pc
  myClient : Nat
  gMyFileWrite : Option Nat
  myFileRead : Option Nat
  packetBuffer : Option Nat
  packet : List UInt8
  readerBuf : List UInt8
  readFailed : Bool
  deriving DecidableEq, Repr

namespace Conn

/-- A thread at its start. The global `g_my_file_write` that it is called with is `-1`. -/
def start (myClient : Nat) : Conn :=
  ⟨.openWrite, myClient, none, none, none, [], [], false⟩

/-- The end of `handle_connection`: `my_file_read` is closed unless it is `-1`. -/
def tail (c : Conn) : Conn :=
  { c with packetBuffer := none, pc := if c.myFileRead.isSome then .closeTail else .setDone }

/-- `free(packet_buffer)` and `break`. -/
def freePacket (c : Conn) : Conn := { c with packetBuffer := none, packet := [] }.tail

/-- After `recv` stored `chunk`: the packet goes to the device once it has a newline, unless it
    starts with the seek prefix; without one the buffer is extended. -/
def received (C : Libc) (c : Conn) (chunk beyond : List UInt8) : Conn :=
  let packet := c.packet ++ chunk
  let pc : Pc :=
    if newline ∈ packet then
      if seekPrefix.isPrefixOf (packet ++ beyond) then
        match scanSeek C ((packet ++ beyond).drop seekPrefix.length) with
        | none => .loopTop
        | some seekto => .ioctl seekto
      else .lock
    else .realloc
  { c with packet := packet, pc := pc }

/-- One call of the thread. -/
def step (C : Libc) (c : Conn) (call : Call) : Option Conn :=
  match c.pc, call with
  | .openWrite, .openWrite none => some { c with pc := .setDone }
  | .openWrite, .openWrite (some fd) => some { c with gMyFileWrite := some fd, pc := .loopTop }
  | .loopTop, .exitFlag true => some c.tail
  | .loopTop, .exitFlag false =>
    some { c with pc := if c.packetBuffer.isNone then .malloc else .recv }
  | .malloc, .malloc false => some c.tail
  | .malloc, .malloc true => some { c with packetBuffer := some initialBufferSize, pc := .recv }
  | .recv, .recv none _ => some c.tail
  | .recv, .recv (some chunk) beyond =>
    if chunk ≠ [] ∧ chunk.length ≤ initialBufferSize then some (c.received C chunk beyond)
    else none
  | .realloc, .realloc false => some c.tail
  | .realloc, .realloc true =>
    some { c with packetBuffer := some (c.packet.length * 2), pc := .loopTop }
  -- the seek command
  | .ioctl seekto, .ioctl fd seekto' ok =>
    if c.gMyFileWrite = some fd ∧ seekto' = seekto then
      some (if ok then { c with pc := .seekRead } else c.tail)
    else none
  | .seekRead, .read fd bytes =>
    if c.gMyFileWrite = some fd then
      match bytes with
      | none => some c.tail
      | some [] => some c.freePacket
      | some bytes =>
        if bytes.length ≤ initialBufferSize then
          some { c with readerBuf := bytes, pc := .seekSend }
        else none
    else none
  | .seekSend, .send bytes ok =>
    if bytes = c.readerBuf then some (if ok then { c with pc := .seekRead } else c.freePacket)
    else none
  -- the write command
  | .lock, .lock => some { c with pc := .write }
  | .write, .write fd bytes ret =>
    if c.gMyFileWrite = some fd ∧ bytes = c.packet then
      some { c with pc := if ret = c.packet.length then .unlock else .unlockFailed }
    else none
  | .unlockFailed, .unlock => some c.tail
  | .unlock, .unlock => some { c with pc := .openRead }
  | .openRead, .openRead none => some c.tail
  | .openRead, .openRead (some fd) => some { c with myFileRead := some fd, pc := .readBack }
  | .readBack, .read fd bytes =>
    if c.myFileRead = some fd then
      match bytes with
      | none => some { c with readFailed := true, pc := .closeRead }
      | some [] => some { c with pc := .closeRead }
      | some bytes =>
        if bytes.length ≤ initialBufferSize then
          some { c with readerBuf := bytes, pc := .sendBack }
        else none
    else none
  | .sendBack, .send bytes ok =>
    if bytes = c.readerBuf then
      some { c with pc := if ok then .readBack else .closeSendFailed }
    else none
  | .closeSendFailed, .close fd =>
    if fd = c.myFileRead then some { c with myFileRead := none, pc := .closeRead } else none
  | .closeRead, .close fd =>
    if fd = c.myFileRead then some (if c.readFailed then c.tail else c.freePacket) else none
  -- the end of `handle_connection`, and the wrapper
  | .closeTail, .close fd =>
    if fd = c.myFileRead then some { c with pc := .setDone } else none
  | .setDone, .setDone => some { c with pc := .closeClient }
  | .closeClient, .close fd =>
    if fd = some c.myClient then some { c with pc := .returned } else none
  | _, _ => none

/-- A thread by itself: what its calls return is left open. -/
def lts (C : Libc) : Lts Conn Call := ⟨step C⟩

end Conn

namespace Call

/-- The chunk a call received. -/
def chunk? : Call → Option (List UInt8)
  | .recv (some chunk) _ => some chunk
  | _ => none

/-- The bytes a call wrote to the device: those of a write that returned their number. -/
def written : Call → List UInt8
  | .write _ bytes ret => if ret = bytes.length then bytes else []
  | _ => []

/-- The bytes a call sent to the client. -/
def sent : Call → List UInt8
  | .send bytes ok => if ok then bytes else []
  | _ => []

/-- A call that does not fail. For `recv` the end of the stream is no failure. -/
def Succeeds : Call → Prop
  | .openWrite fd => fd.isSome
  | .exitFlag set => set = false
  | .malloc granted => granted = true
  | .realloc granted => granted = true
  | .ioctl _ _ ok => ok = true
  | .write _ bytes ret => ret = bytes.length
  | .openRead fd => fd.isSome
  | .read _ bytes => bytes.isSome
  | .send _ ok => ok = true
  | _ => True

end Call

end Aesd
