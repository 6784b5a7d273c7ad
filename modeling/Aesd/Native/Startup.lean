import Aesd.ForStd.Descriptors
import Aesd.ForStd.Lts

/-! # How the server starts

`main` of `aesdsocket.c` up to its accept loop, as a machine that goes from one system call to
the next: the listening socket, and with `-d` the fork and the redirection of the standard
descriptors to `/dev/null`. The machine is the process that goes on after the fork, or the
parent, which exits; what the process has open at its start is left open.

The results of `close` and `dup2` are not looked at, in the source as here. `cleanup` closes
nothing, as `g_my_file_write` is `-1`, and removes the data file in the build without
`USE_AESD_CHAR_DEVICE`. -/

namespace Aesd

/-- Where the process is: before which call. `closeStd` and `dup2Std` name the standard
    descriptor. -/
inductive StartupPc where
  | socket
  | setsockopt
  | bind
  | listen
  | fork
  | exit
  | setsid
  | chdir
  | openDevNull
  | closeStd (fd : Nat)
  | dup2Std (fd : Nat)
  | closeDevNull
  | acceptLoop
  | cleanup
  | returned
  | exited
  deriving DecidableEq, Repr

/-- A file that the process has open: one from before its start, `g_my_socket`, or
    `/dev/null`. -/
inductive StartFile where
  | inherited (file : Nat)
  | socket
  | devNull
  deriving DecidableEq, Repr

/-- The calls, with whether they succeed. `fork` tells whether the process is the child. -/
inductive StartupCall where
  | socket (ok : Bool)
  | setsockopt (ok : Bool)
  | bind (ok : Bool)
  | listen (ok : Bool)
  | fork (child : Option Bool)
  | exit
  | setsid (ok : Bool)
  | chdir (ok : Bool)
  | openDevNull (ok : Bool)
  | close (fd : Nat)
  | dup2 (fd : Nat) (ok : Bool)
  | cleanup
  deriving DecidableEq, Repr

/-- The process. `none` stands for the descriptor `-1`. -/
structure Startup where
  pc : StartupPc
  createDaemon : Bool
  usesCharDevice : Bool
  gMySocket : Option Nat
  devnull : Nat
  fds : Descriptors StartFile
  dataFileRemoved : Bool

namespace Startup

/-- The process when `main` is called. -/
def start (createDaemon usesCharDevice : Bool) (fds : Descriptors Nat) : Startup :=
  ⟨.socket, createDaemon, usesCharDevice, none, 0, fds.map .inherited, false⟩

/-- A call whose failure leads to `cleanup`. -/
def goOn (s : Startup) (ok : Bool) (pc : StartupPc) : Startup :=
  { s with pc := if ok then pc else .cleanup }

/-- One call of the process. -/
def step (s : Startup) (call : StartupCall) : Option Startup :=
  match s.pc, call with
  | .socket, .socket true =>
    some { s with
      gMySocket := some s.fds.lowest, fds := s.fds.opened .socket, pc := .setsockopt }
  | .socket, .socket false => some { s with pc := .cleanup }
  | .setsockopt, .setsockopt ok => some (s.goOn ok .bind)
  | .bind, .bind ok => some (s.goOn ok .listen)
  | .listen, .listen ok => some (s.goOn ok (if s.createDaemon then .fork else .acceptLoop))
  | .fork, .fork none => some { s with pc := .cleanup }
  | .fork, .fork (some child) => some { s with pc := if child then .setsid else .exit }
  | .exit, .exit => some { s with pc := .exited }
  | .setsid, .setsid ok => some (s.goOn ok .chdir)
  | .chdir, .chdir ok => some (s.goOn ok .openDevNull)
  | .openDevNull, .openDevNull true =>
    some { s with devnull := s.fds.lowest, fds := s.fds.opened .devNull, pc := .closeStd 0 }
  | .openDevNull, .openDevNull false => some { s with pc := .cleanup }
  | .closeStd fd, .close fd' =>
    if fd' = fd then
      some { s with fds := s.fds.close fd, pc := if fd < 2 then .closeStd (fd + 1) else .dup2Std 0 }
    else none
  | .dup2Std fd, .dup2 fd' ok =>
    -- a descriptor that is not open cannot be duplicated
    if fd' = fd ∧ (ok = true → (s.fds.get s.devnull).isSome) then
      some { s with
        fds := if ok then s.fds.dup2 s.devnull fd else s.fds
        pc := if fd < 2 then .dup2Std (fd + 1) else .closeDevNull }
    else none
  | .closeDevNull, .close fd =>
    if fd = s.devnull then some { s with fds := s.fds.close fd, pc := .acceptLoop } else none
  | .cleanup, .cleanup =>
    some { s with dataFileRemoved := !s.usesCharDevice, pc := .returned }
  | _, _ => none

/-- The start of the server, whatever its calls return. -/
def lts : Lts Startup StartupCall := ⟨step⟩

end Startup

end Aesd
