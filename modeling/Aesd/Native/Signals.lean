import Aesd.Native.MainLoop

/-! # The server and its signals

`SIGINT` and `SIGTERM` may come to any thread of the server between two of its calls.
`signal_handler` then runs on that thread: it shuts the listening socket down and sets
`g_exit_flag`, and another signal may come in between. From its accept loop on the server has
a listening socket, so the test of `g_my_socket` in the handler always succeeds.

A listening socket that is shut down accepts no connection any more: `accept` fails, also one
that was called before. -/

namespace Aesd

/-- Where a handler is: before which of its two statements. -/
inductive HandlerPc where
  | shutdown
  | setExitFlag
  deriving DecidableEq, Repr

/-- The server with its listening socket, `g_exit_flag` and the handlers on each thread, the
    newest one first. The main thread has the name `none`. -/
structure SignalServer where
  server : Server
  socketShut : Bool
  gExitFlag : Bool
  handlers : Option Nat → List HandlerPc

/-- What happens: a call of the server, a signal that comes to a thread, and the next statement
    of the newest handler on a thread. -/
inductive SignalCall where
  | server (call : MainCall)
  | signal (thread : Option Nat)
  | handler (thread : Option Nat)
  deriving DecidableEq, Repr

/-- The thread that makes a call. -/
def MainCall.thread? : MainCall → Option Nat
  | .begin n | .thread n _ => some n
  | _ => none

/-- The thread on which something happens. -/
def SignalCall.thread? : SignalCall → Option Nat
  | .server call => call.thread?
  | .signal thread | .handler thread => thread

namespace SignalServer

/-- The server before its accept loop. -/
def init : SignalServer := ⟨.init, false, false, fun _ => []⟩

/-- A thread that is there to get a signal. -/
def Runs (s : SignalServer) : Option Nat → Bool
  | none => s.server.pc != .returned
  | some n =>
    match s.server.threads n with
    | .created => true
    | .running c => c.pc != .returned
    | _ => false

/-- Each test of `g_exit_flag` finds what it is, and a socket that is shut down accepts
    nothing. -/
def Allows (s : SignalServer) : MainCall → Bool
  | .exitFlag set | .thread _ (.exitFlag set) => set == s.gExitFlag
  | .accept (some _) => !s.socketShut
  | _ => true

/-- The handlers on a thread become `pcs`. -/
def setHandlers (s : SignalServer) (thread : Option Nat) (pcs : List HandlerPc) : SignalServer :=
  { s with handlers := Function.update s.handlers thread pcs }

/-- One step of the server. A thread makes no call while a handler runs on it. -/
def step (C : Libc) (s : SignalServer) : SignalCall → Option SignalServer
  | .server call =>
    if s.handlers call.thread? = [] ∧ s.Allows call then
      (s.server.step C call).map fun server => { s with server := server }
    else none
  | .signal thread =>
    if s.Runs thread then some (s.setHandlers thread (.shutdown :: s.handlers thread)) else none
  | .handler thread =>
    match s.handlers thread with
    | [] => none
    | .shutdown :: pcs =>
      some { s.setHandlers thread (.setExitFlag :: pcs) with socketShut := true }
    | .setExitFlag :: pcs => some { s.setHandlers thread pcs with gExitFlag := true }

/-- The server, whatever its calls return and whenever signals come. -/
def lts (C : Libc) : Lts SignalServer SignalCall := ⟨step C⟩

end SignalServer

end Aesd
