import Aesd.ForStd.Lts
import Aesd.Native.Connection

/-! # The server's main thread

`main` of `aesdsocket.c` from its accept loop on, with the threads it creates and the list it
keeps of them. As for a connection, a step is one call, or one access to an entry of the list;
between two steps of the main thread any number of steps of connection threads may lie.

An entry is named by the number of entries allocated before it, and the thread created for it
has the same name. The list is given by the entries in their order: `SLIST_INSERT_HEAD` puts
one at the head, `SLIST_REMOVE` takes out the one it names. Descriptors are numbers, and the
table tells of each open one for which connection it was obtained. -/

namespace Aesd

/-- `struct thread_entry`, but for the link. `none` stands for a client that is not set yet. -/
structure ThreadEntry where
  threadId : Nat
  myClient : Option Nat
  isDone : Bool
  deriving DecidableEq, Repr

/-- A thread: not created, refused by `pthread_create`, created, in `handle_connection` or the
    wrapper's rest (or out of both, as its `pc` tells), and joined. -/
inductive ThreadState where
  | none
  | failed
  | created
  | running (c : Conn)
  | joined
  deriving DecidableEq, Repr

/-- Where the main thread is: before which call or access, with `current_entry`, or with
    `indexed_entry` and `temp`. -/
inductive MainPc where
  | loopTop
  | malloc
  | accept (currentEntry : Nat)
  | freeUnaccepted (currentEntry : Nat)
  | insert (currentEntry : Nat)
  | create (currentEntry : Nat)
  | removeUncreated (currentEntry : Nat)
  | freeUncreated (currentEntry : Nat)
  | sweepNext (indexedEntry : Nat)
  | sweepTest (indexedEntry : Nat) (temp : Option Nat)
  | sweepJoin (indexedEntry : Nat) (temp : Option Nat)
  | sweepRemove (indexedEntry : Nat) (temp : Option Nat)
  | sweepFree (indexedEntry : Nat) (temp : Option Nat)
  | shutdownNext (indexedEntry : Nat)
  | shutdownJoin (indexedEntry : Nat) (temp : Option Nat)
  | shutdownClose (indexedEntry : Nat) (temp : Option Nat)
  | shutdownRemove (indexedEntry : Nat) (temp : Option Nat)
  | shutdownFree (indexedEntry : Nat) (temp : Option Nat)
  | cleanup
  | returned
  deriving DecidableEq, Repr

/-- What happens: a call of the main thread or an access of it to an entry, the beginning of a
    thread, which reads its entry, and a call of a thread. `malloc` tells what the memory for
    `thread_id` holds, `create` the id of the new thread. -/
inductive MainCall where
  | exitFlag (set : Bool)
  | malloc (threadId : Option Nat)
  | accept (fd : Option Nat)
  | insert (entry : Nat)
  | create (entry : Nat) (threadId : Option Nat)
  | next (entry : Nat)
  | isDone (entry : Nat) (value : Bool)
  | join (entry : Nat)
  | close (entry fd : Nat)
  | remove (entry : Nat)
  | free (entry : Nat)
  | cleanup
  | begin (entry : Nat)
  | thread (entry : Nat) (call : Call)
  deriving DecidableEq, Repr

/-- The server. -/
structure Server where
  pc : MainPc
  head : List Nat
  entryCount : Nat
  entries : Nat → Option ThreadEntry
  threads : Nat → ThreadState
  fds : Nat → Option Nat

namespace Server

/-- The server before its accept loop. -/
def init : Server := ⟨.loopTop, [], 0, fun _ => none, fun _ => .none, fun _ => none⟩

/-- `SLIST_NEXT`: the entry behind `entry`. -/
def slistNext (head : List Nat) (entry : Nat) : Option Nat :=
  (head.dropWhile (· ≠ entry)).tail.head?

/-- The sweep of the accept loop goes on with `entry`, if there is one. -/
def sweepFrom : Option Nat → MainPc
  | none => .loopTop
  | some entry => .sweepNext entry

/-- The sweep at the end goes on with `entry`, if there is one. -/
def shutdownFrom : Option Nat → MainPc
  | none => .cleanup
  | some entry => .shutdownNext entry

/-- After `pthread_join` of the sweep at the end: the client is closed unless it is `-1`. -/
def closeFrom (e : ThreadEntry) (entry : Nat) (temp : Option Nat) : MainPc :=
  if e.myClient.isSome then .shutdownClose entry temp else .shutdownRemove entry temp

/-- The sweep at the end with `indexed_entry` and `temp`: the thread is joined unless its id
    is `0`. -/
def joinFrom (e : ThreadEntry) (entry : Nat) (temp : Option Nat) : MainPc :=
  if e.threadId ≠ 0 then .shutdownJoin entry temp else closeFrom e entry temp

/-- A thread has ended. -/
def Ended : ThreadState → Bool
  | .running c => c.pc = .returned
  | _ => false

/-- The entry becomes `e`, or is freed. -/
def setEntry (s : Server) (entry : Nat) (e : Option ThreadEntry) : Server :=
  { s with entries := Function.update s.entries entry e }

/-- The thread of `entry` becomes `t`. -/
def setThread (s : Server) (entry : Nat) (t : ThreadState) : Server :=
  { s with threads := Function.update s.threads entry t }

/-- Descriptor `fd` is opened for a connection, or closed. -/
def setFd (s : Server) (fd : Nat) (owner : Option Nat) : Server :=
  { s with fds := Function.update s.fds fd owner }

/-- What a call of the thread of `entry` does to what it shares with the others. -/
def threadEffect (s : Server) (entry : Nat) : Call → Option Server
  | .openWrite (some fd) | .openRead (some fd) =>
    if s.fds fd = none then some (s.setFd fd (some entry)) else none
  | .setDone =>
    some (s.setEntry entry ((s.entries entry).map fun e => { e with isDone := true }))
  | .close (some fd) => some (s.setFd fd none)
  | _ => some s

/-- One step of the main thread. -/
def mainStep (s : Server) (call : MainCall) : Option Server :=
  match s.pc, call with
  | .loopTop, .exitFlag true => some { s with pc := shutdownFrom s.head.head? }
  | .loopTop, .exitFlag false => some { s with pc := .malloc }
  | .malloc, .malloc none => some { s with pc := shutdownFrom s.head.head? }
  | .malloc, .malloc (some threadId) =>
    some { s.setEntry s.entryCount (some ⟨threadId, none, false⟩) with
      entryCount := s.entryCount + 1, pc := .accept s.entryCount }
  -- the exit flag is tested, and the loop is left either way
  | .accept entry, .accept none => some { s with pc := .freeUnaccepted entry }
  | .freeUnaccepted entry, .free entry' =>
    if entry' = entry then
      some { s.setEntry entry none with pc := shutdownFrom s.head.head? }
    else none
  | .accept entry, .accept (some fd) =>
    if s.fds fd = none then
      let e := (s.entries entry).map fun e => { e with myClient := some fd }
      some { (s.setFd fd (some entry)).setEntry entry e with pc := .insert entry }
    else none
  | .insert entry, .insert entry' =>
    if entry' = entry then some { s with head := entry :: s.head, pc := .create entry } else none
  | .create entry, .create entry' none =>
    if entry' = entry then
      some { s.setThread entry .failed with pc := .removeUncreated entry }
    else none
  | .create entry, .create entry' (some threadId) =>
    if entry' = entry ∧ threadId ≠ 0 then
      let e := (s.entries entry).map fun e => { e with threadId := threadId }
      some { (s.setThread entry .created).setEntry entry e with pc := sweepFrom s.head.head? }
    else none
  | .removeUncreated entry, .remove entry' =>
    if entry' = entry then
      some { s with head := s.head.erase entry, pc := .freeUncreated entry }
    else none
  | .freeUncreated entry, .free entry' =>
    if entry' = entry then
      some { s.setEntry entry none with pc := .loopTop }
    else none
  -- joining the threads that are done
  | .sweepNext entry, .next entry' =>
    if entry' = entry then some { s with pc := .sweepTest entry (slistNext s.head entry) }
    else none
  | .sweepTest entry temp, .isDone entry' value =>
    if entry' = entry ∧ (s.entries entry).map ThreadEntry.isDone = some value then
      some { s with pc := if value then .sweepJoin entry temp else sweepFrom temp }
    else none
  | .sweepJoin entry temp, .join entry' =>
    if entry' = entry ∧ Ended (s.threads entry) then
      some { s.setThread entry .joined with pc := .sweepRemove entry temp }
    else none
  | .sweepRemove entry temp, .remove entry' =>
    if entry' = entry then
      some { s with head := s.head.erase entry, pc := .sweepFree entry temp }
    else none
  | .sweepFree entry temp, .free entry' =>
    if entry' = entry then
      some { s.setEntry entry none with pc := sweepFrom temp }
    else none
  -- joining all threads at the end
  | .shutdownNext entry, .next entry' =>
    if entry' = entry then
      match s.entries entry with
      | none => none
      | some e => some { s with pc := joinFrom e entry (slistNext s.head entry) }
    else none
  | .shutdownJoin entry temp, .join entry' =>
    if entry' = entry ∧ Ended (s.threads entry) then
      match s.entries entry with
      | none => none
      | some e => some { s.setThread entry .joined with pc := closeFrom e entry temp }
    else none
  | .shutdownClose entry temp, .close entry' fd =>
    if entry' = entry ∧ (s.entries entry).bind ThreadEntry.myClient = some fd then
      some { s.setFd fd none with pc := .shutdownRemove entry temp }
    else none
  | .shutdownRemove entry temp, .remove entry' =>
    if entry' = entry then
      some { s with head := s.head.erase entry, pc := .shutdownFree entry temp }
    else none
  | .shutdownFree entry temp, .free entry' =>
    if entry' = entry then
      some { s.setEntry entry none with pc := shutdownFrom temp }
    else none
  | .cleanup, .cleanup => some { s with pc := .returned }
  | _, _ => none

/-- One step of the server. -/
def step (C : Libc) (s : Server) : MainCall → Option Server
  | .begin entry =>
    match s.threads entry, (s.entries entry).bind ThreadEntry.myClient with
    | .created, some fd => some (s.setThread entry (.running (.start fd)))
    | _, _ => none
  | .thread entry call =>
    match s.threads entry with
    | .running c => do
      let c ← c.step C call
      let s ← threadEffect s entry call
      some (s.setThread entry (.running c))
    | _ => none
  | call => mainStep s call

/-- The server, whatever its calls return. -/
def lts (C : Libc) : Lts Server MainCall := ⟨step C⟩

end Server

end Aesd
