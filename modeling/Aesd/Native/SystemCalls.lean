import Aesd.ForStd.Descriptors
import Aesd.ForStd.Lts
import Aesd.ForStd.OpenFile

/-! # Running a command

`do_exec` and `do_exec_redirect` of `systemcalls.c`, as the two processes that they are after
`fork`, each going from one system call to the next, in any order: the caller, and the child,
which runs the command once `execv` has succeeded. A command writes to its descriptors and
exits, and the child may be killed at any moment. What the caller has open is left open here,
and so is whether a call succeeds. -/

namespace Aesd

/-- How a process came to its end. -/
inductive WaitStatus where
  | exited (status : UInt8)
  | signaled (signal : Nat)
  deriving DecidableEq, Repr

/-- Where the caller is: before which call, or behind its `return`. -/
inductive CallerPc where
  | open
  | fork
  | close
  | waitpid
  | returned (result : Bool)
  deriving DecidableEq, Repr

/-- Where the child is: not there, before which call, in the command, or at its end. -/
inductive ChildPc where
  | none
  | dup2
  | closeFailed
  | close
  | execv
  | exit
  | command
  | ended (status : WaitStatus)
  deriving DecidableEq, Repr

/-- A file that a process has open: one of the caller, or the output file. -/
inductive ExecFile where
  | inherited (file : Nat)
  | output
  deriving DecidableEq, Repr

/-- The calls of the caller and the child, with whether they succeed, and what a command does.
    `waitpid` fails with `none`. -/
inductive ExecCall where
  | open (ok : Bool)
  | fork (ok : Bool)
  | close (fd : Nat)
  | waitpid (status : Option WaitStatus)
  | childDup2 (ok : Bool)
  | childClose (fd : Nat)
  | childExecv (ok : Bool)
  | childExit
  | commandWrite (fd : Nat) (bytes : List UInt8)
  | commandExit (status : UInt8)
  | childKilled (signal : Nat)
  deriving DecidableEq, Repr

/-- The two processes, the output file and the position in it. `fd` is `none` in `do_exec`. -/
structure Exec where
  pc : CallerPc
  fds : Descriptors ExecFile
  fd : Option Nat
  child : ChildPc
  childFds : Descriptors ExecFile
  outputFile : List UInt8
  output : OpenFile

namespace Exec

/-- `STDOUT_FILENO`. -/
abbrev stdoutFileno : Nat := 1

/-- `do_exec` when it is called. -/
def doExec (fds : Descriptors Nat) : Exec :=
  ⟨.fork, fds.map .inherited, none, .none, fds.map .inherited, [], ⟨0, false⟩⟩

/-- `do_exec_redirect` when it is called, with what the output file holds. -/
def doExecRedirect (fds : Descriptors Nat) (outputFile : List UInt8) : Exec :=
  ⟨.open, fds.map .inherited, none, .none, fds.map .inherited, outputFile, ⟨0, false⟩⟩

/-- One call of the caller. -/
def callerStep (s : Exec) (call : ExecCall) : Option Exec :=
  match s.pc, call with
  -- with `O_TRUNC`
  | .open, .open true =>
    some { s with
      fd := some s.fds.lowest, fds := s.fds.opened .output, outputFile := []
      output := ⟨0, false⟩, pc := .fork }
  | .open, .open false => some { s with pc := .returned false }
  | .fork, .fork true =>
    some { s with
      pc := if s.fd.isSome then .close else .waitpid
      child := if s.fd.isSome then .dup2 else .execv
      childFds := s.fds }
  | .fork, .fork false => some { s with pc := .returned false }
  | .close, .close fd =>
    if s.fd = some fd then some { s with fds := s.fds.close fd, pc := .waitpid } else none
  | .waitpid, .waitpid none => some { s with pc := .returned false }
  | .waitpid, .waitpid (some status) =>
    if s.child = .ended status then
      some { s with pc := .returned (status == .exited 0) }
    else none
  | _, _ => none

/-- One call of the child, or a step of the command. -/
def childStep (s : Exec) (call : ExecCall) : Option Exec :=
  match s.child, call with
  | .dup2, .childDup2 ok =>
    match s.fd with
    | none => none
    | some fd =>
      some { s with
        childFds := if ok then s.childFds.dup2 fd stdoutFileno else s.childFds
        child := if ok then .close else .closeFailed }
  | .closeFailed, .childClose fd =>
    if s.fd = some fd then some { s with childFds := s.childFds.close fd, child := .exit } else none
  | .close, .childClose fd =>
    if s.fd = some fd then some { s with childFds := s.childFds.close fd, child := .execv }
    else none
  | .execv, .childExecv ok => some { s with child := if ok then .command else .exit }
  -- the status of `exit(-1)`
  | .exit, .childExit => some { s with child := .ended (.exited 255) }
  | .command, .commandWrite fd bytes =>
    match s.childFds.get fd with
    | none => some s
    | some (.inherited _) => some s
    | some .output =>
      let (outputFile, output) := s.output.write s.outputFile bytes
      some { s with outputFile := outputFile, output := output }
  | .command, .commandExit status => some { s with child := .ended (.exited status) }
  | .none, .childKilled _ => none
  | .ended _, .childKilled _ => none
  | _, .childKilled signal => some { s with child := .ended (.signaled signal) }
  | _, _ => none

/-- One step of the two processes. -/
def step (s : Exec) (call : ExecCall) : Option Exec :=
  match call with
  | .open _ | .fork _ | .close _ | .waitpid _ => s.callerStep call
  | _ => s.childStep call

/-- The two processes in any order, whatever their calls return. -/
def lts : Lts Exec ExecCall := ⟨step⟩

end Exec

end Aesd
