import Aesd.ForStd.Slist
import Aesd.Native.MainLoop

/-! # The server with its list in memory

The main thread of `aesdsocket.c` as in `Server`, but with `head` as the macros of `queue.h` keep
it: `slh_first` and the links `next_slist_entry` of the entries. The entry that `malloc` gives has
a link that nobody has written to; `junk` tells what it holds. What the main thread does besides
(its other calls, the threads, the descriptors) it does as the server does, whose own list is
left empty. -/

namespace Aesd

/-- The server, but for its list, and the list. -/
structure LinkedServer where
  server : Server
  list : Slist Nat

namespace LinkedServer

open Server

/-- The server before its accept loop, after `SLIST_INIT`. -/
def init : LinkedServer := ⟨Server.init, .empty⟩

/-- The main thread goes on at `pc`. -/
def goto (p : LinkedServer) (pc : MainPc) : LinkedServer :=
  { p with server := { p.server with pc := pc } }

/-- `SLIST_INSERT_HEAD`, and on to `pc`. -/
def insertHead (p : LinkedServer) (entry : Nat) (pc : MainPc) : Option LinkedServer := do
  let list ← p.list.insertHead entry
  some (goto { p with list := list } pc)

/-- `SLIST_REMOVE`, and on to `pc`. Its loop passes by no more entries than there ever were. -/
def remove (p : LinkedServer) (entry : Nat) (pc : MainPc) : Option LinkedServer := do
  let list ← p.list.remove p.server.entryCount entry
  some (goto { p with list := list } pc)

/-- `free`, and on to `pc`. -/
def free (p : LinkedServer) (entry : Nat) (pc : MainPc) : Option LinkedServer := do
  let list ← p.list.free entry
  some (goto ⟨p.server.setEntry entry none, list⟩ pc)

/-- One step of the main thread. -/
def mainStep (junk : Nat → Option Nat) (p : LinkedServer) (call : MainCall) :
    Option LinkedServer :=
  match p.server.pc, call with
  | .loopTop, .exitFlag true => some (p.goto (shutdownFrom p.list.first))
  | .malloc, .malloc none => some (p.goto (shutdownFrom p.list.first))
  | .malloc, .malloc (some threadId) => do
    let list ← p.list.alloc p.server.entryCount (junk p.server.entryCount)
    let s ← p.server.mainStep (.malloc (some threadId))
    some ⟨s, list⟩
  | .freeUnaccepted entry, .free entry' =>
    if entry' = entry then p.free entry (shutdownFrom p.list.first) else none
  | .insert entry, .insert entry' =>
    if entry' = entry then p.insertHead entry (.create entry) else none
  | .create _, .create entry' (some threadId) => do
    let s ← p.server.mainStep (.create entry' (some threadId))
    some (goto ⟨s, p.list⟩ (sweepFrom p.list.first))
  | .removeUncreated entry, .remove entry' =>
    if entry' = entry then p.remove entry (.freeUncreated entry) else none
  | .freeUncreated entry, .free entry' =>
    if entry' = entry then p.free entry .loopTop else none
  | .sweepNext entry, .next entry' =>
    if entry' = entry then do
      let temp ← p.list.next entry
      some (p.goto (.sweepTest entry temp))
    else none
  | .sweepRemove entry temp, .remove entry' =>
    if entry' = entry then p.remove entry (.sweepFree entry temp) else none
  | .sweepFree entry temp, .free entry' =>
    if entry' = entry then p.free entry (sweepFrom temp) else none
  | .shutdownNext entry, .next entry' =>
    if entry' = entry then do
      let temp ← p.list.next entry
      let e ← p.server.entries entry
      some (p.goto (joinFrom e entry temp))
    else none
  | .shutdownRemove entry temp, .remove entry' =>
    if entry' = entry then p.remove entry (.shutdownFree entry temp) else none
  | .shutdownFree entry temp, .free entry' =>
    if entry' = entry then p.free entry (shutdownFrom temp) else none
  -- the other calls leave the list alone
  | _, call => do
    let s ← p.server.mainStep call
    some ⟨s, p.list⟩

/-- One step of the server. -/
def step (C : Libc) (junk : Nat → Option Nat) (p : LinkedServer) : MainCall → Option LinkedServer
  | .begin entry => do
    let s ← p.server.step C (.begin entry)
    some ⟨s, p.list⟩
  | .thread entry call => do
    let s ← p.server.step C (.thread entry call)
    some ⟨s, p.list⟩
  | call => p.mainStep junk call

/-- The server with its list in memory, whatever its calls return. -/
def lts (C : Libc) (junk : Nat → Option Nat) : Lts LinkedServer MainCall := ⟨step C junk⟩

end LinkedServer

end Aesd
