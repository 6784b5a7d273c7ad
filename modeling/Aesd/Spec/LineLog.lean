import Aesd.ForStd.BoundedLog
import Aesd.Spec.DeviceStep
import Aesd.Spec.SeekGrammar
import Aesd.Spec.Segmentation

/-!
# The server as a log of lines

What the server is for: it keeps the newest ten lines, and answers each client with them. A
client either has a line appended or asks for a part of what is there (`Request`), and `LineLog`
is what becomes of the log and what the client gets. `Client` is one that sends a single line,
cut into pieces in any way, and `Session` what the server does for it.
-/

namespace Aesd

instance : NeZero maxWriteOperationsSupported := ⟨by decide⟩

/-- A log of the newest lines. -/
abbrev LineLog := BoundedLog (List UInt8) maxWriteOperationsSupported

/-- What a client wants: its line appended, or what follows from a byte of a line on. -/
inductive Request where
  | append (line : List UInt8)
  | seek (seekto : AesdSeekto)

namespace LineLog

/-- What the client gets, and the log after the request. -/
def serve (log : LineLog) : Request → List UInt8 × LineLog
  | .append line => ((log.push line).contents, log.push line)
  | .seek seekto => (log.suffixFrom seekto.writeCmd.toNat seekto.writeCmdOffset.toNat, log)

/-- The log as a component that is called and answers. -/
def lts : Lts LineLog (Request × List UInt8) := Lts.ofCalls fun log request => some (log.serve request)

end LineLog

/-- `line` is what a client sends to make the request: the line to append, which is no seek
    command, or a seek command in its documented form. -/
def Request.IsLine : Request → List UInt8 → Prop
  | .append appended, line => line = appended ∧ Lines.IsLine isNewline line ∧ ¬ seekPrefix <+: line
  | .seek seekto, line => IsSeekLine line seekto

theorem Request.IsLine.isLine {request : Request} {line : List UInt8} (h : request.IsLine line) :
    Lines.IsLine isNewline line := by
  cases request with
  | append appended => exact h.2.1
  | seek seekto => exact IsSeekLine.isLine h

/-- A client that makes one request, and the pieces in which the server receives its line. -/
structure Client where
  request : Request
  chunks : List (List UInt8)
  isChunk : ∀ chunk ∈ chunks, Conn.IsChunk chunk
  isLine : request.IsLine chunks.flatten

/-- The line that a client sends. -/
def Client.line (client : Client) : List UInt8 := client.chunks.flatten

/-! ### Sessions -/

/-- A connection from its start on: its descriptor, and the calls that are made for it with what
    the kernel grants them. -/
structure Session where
  myClient : Nat
  calls : List (Call × DeviceOutcome)

namespace Session

/-- The steps of a session that is connection `i`. -/
def steps (i : Nat) (session : Session) : List (Nat × DeviceCall) :=
  (i, .accept session.myClient) :: session.calls.map fun c => (i, .call c.1 c.2)

/-- The bytes that the client gets. -/
def sent (session : Session) : List UInt8 := session.calls.flatMap fun c => c.1.sent

/-- The pieces that are received. -/
def received (session : Session) : List (List UInt8) := chunksOf (session.calls.map Prod.fst)

end Session

/-- A session receives what the client sends, and the end of it only where it ends. -/
structure Session.Serves (session : Session) (client : Client) : Prop where
  granted : ∀ c ∈ session.calls, Granted c
  pieces : session.received <+: client.chunks
  atEnd : ∀ pre beyond out post, session.calls = pre ++ (.recv none beyond, out) :: post →
    chunksOf (pre.map Prod.fst) = client.chunks

/-- Sessions one after another, the first of them connection `0`. -/
def sequential (sessions : List Session) : List (Nat × DeviceCall) :=
  sessions.zipIdx.flatMap fun s => s.1.steps s.2

/-- The clients are served one at a time: the next one is accepted only when the thread of the
    one before has returned. -/
structure ServedInTurn (K : Kernel) (C : Libc) (served : List (Client × Session))
    (g : Threads Nat DeviceState (Option Conn)) : Prop where
  serves : ∀ s ∈ served, s.2.Serves s.1
  run : (DeviceServer.lts K C).run DeviceServer.init (sequential (served.map Prod.snd)) = some g
  returned : ∀ i < served.length, ∃ c, g.locals i = some c ∧ c.pc = .returned

end Aesd
