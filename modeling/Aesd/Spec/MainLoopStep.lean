import Aesd.Native.MainLoop
import Aesd.Spec.ConnectionStep

/-!
# The transitions of the server

`Server.Trans` lists what can happen in the server, one constructor for each way a call of the
main thread can go and one each for a thread's beginning and its calls. Proofs about the server
are case splits over it.
-/

namespace Aesd

namespace Server

variable {C : Libc} {s s' : Server} {call : MainCall}

/-! ### The parts of the state -/

@[simp] theorem pc_setEntry (s : Server) (n : Nat) (e : Option ThreadEntry) :
    (s.setEntry n e).pc = s.pc := rfl
@[simp] theorem head_setEntry (s : Server) (n : Nat) (e : Option ThreadEntry) :
    (s.setEntry n e).head = s.head := rfl
@[simp] theorem entryCount_setEntry (s : Server) (n : Nat) (e : Option ThreadEntry) :
    (s.setEntry n e).entryCount = s.entryCount := rfl
@[simp] theorem entries_setEntry (s : Server) (n : Nat) (e : Option ThreadEntry) :
    (s.setEntry n e).entries = Function.update s.entries n e := rfl
@[simp] theorem threads_setEntry (s : Server) (n : Nat) (e : Option ThreadEntry) :
    (s.setEntry n e).threads = s.threads := rfl
@[simp] theorem fds_setEntry (s : Server) (n : Nat) (e : Option ThreadEntry) :
    (s.setEntry n e).fds = s.fds := rfl

@[simp] theorem pc_setThread (s : Server) (n : Nat) (t : ThreadState) :
    (s.setThread n t).pc = s.pc := rfl
@[simp] theorem head_setThread (s : Server) (n : Nat) (t : ThreadState) :
    (s.setThread n t).head = s.head := rfl
@[simp] theorem entryCount_setThread (s : Server) (n : Nat) (t : ThreadState) :
    (s.setThread n t).entryCount = s.entryCount := rfl
@[simp] theorem entries_setThread (s : Server) (n : Nat) (t : ThreadState) :
    (s.setThread n t).entries = s.entries := rfl
@[simp] theorem threads_setThread (s : Server) (n : Nat) (t : ThreadState) :
    (s.setThread n t).threads = Function.update s.threads n t := rfl
@[simp] theorem fds_setThread (s : Server) (n : Nat) (t : ThreadState) :
    (s.setThread n t).fds = s.fds := rfl

@[simp] theorem pc_setFd (s : Server) (fd : Nat) (o : Option Nat) : (s.setFd fd o).pc = s.pc := rfl
@[simp] theorem head_setFd (s : Server) (fd : Nat) (o : Option Nat) :
    (s.setFd fd o).head = s.head := rfl
@[simp] theorem entryCount_setFd (s : Server) (fd : Nat) (o : Option Nat) :
    (s.setFd fd o).entryCount = s.entryCount := rfl
@[simp] theorem entries_setFd (s : Server) (fd : Nat) (o : Option Nat) :
    (s.setFd fd o).entries = s.entries := rfl
@[simp] theorem threads_setFd (s : Server) (fd : Nat) (o : Option Nat) :
    (s.setFd fd o).threads = s.threads := rfl
@[simp] theorem fds_setFd (s : Server) (fd : Nat) (o : Option Nat) :
    (s.setFd fd o).fds = Function.update s.fds fd o := rfl

/-! ### Transitions -/

/-- What can happen in the server. -/
inductive Trans (C : Libc) (s : Server) : MainCall → Server → Prop
  | exit : s.pc = .loopTop →
    Trans C s (.exitFlag true) { s with pc := shutdownFrom s.head.head? }
  | loop : s.pc = .loopTop → Trans C s (.exitFlag false) { s with pc := .malloc }
  | mallocFailed : s.pc = .malloc →
    Trans C s (.malloc none) { s with pc := shutdownFrom s.head.head? }
  | malloc {threadId : Nat} : s.pc = .malloc → Trans C s (.malloc (some threadId))
      { s.setEntry s.entryCount (some ⟨threadId, none, false⟩) with
        entryCount := s.entryCount + 1, pc := .accept s.entryCount }
  | acceptFailed {n : Nat} : s.pc = .accept n →
    Trans C s (.accept none) { s with pc := .freeUnaccepted n }
  | freeUnaccepted {n : Nat} : s.pc = .freeUnaccepted n →
    Trans C s (.free n) { s.setEntry n none with pc := shutdownFrom s.head.head? }
  | accept {n fd : Nat} : s.pc = .accept n → s.fds fd = none → Trans C s (.accept (some fd))
      { (s.setFd fd (some n)).setEntry n
          ((s.entries n).map fun e => { e with myClient := some fd }) with pc := .insert n }
  | insert {n : Nat} : s.pc = .insert n →
    Trans C s (.insert n) { s with head := n :: s.head, pc := .create n }
  | createFailed {n : Nat} : s.pc = .create n → Trans C s (.create n none)
      { s.setThread n .failed with pc := .removeUncreated n }
  | create {n threadId : Nat} : s.pc = .create n → threadId ≠ 0 →
    Trans C s (.create n (some threadId))
      { (s.setThread n .created).setEntry n
          ((s.entries n).map fun e => { e with threadId := threadId }) with
        pc := sweepFrom s.head.head? }
  | removeUncreated {n : Nat} : s.pc = .removeUncreated n →
    Trans C s (.remove n) { s with head := s.head.erase n, pc := .freeUncreated n }
  | freeUncreated {n : Nat} : s.pc = .freeUncreated n →
    Trans C s (.free n) { s.setEntry n none with pc := .loopTop }
  | sweepNext {n : Nat} : s.pc = .sweepNext n →
    Trans C s (.next n) { s with pc := .sweepTest n (slistNext s.head n) }
  | sweepTest {n : Nat} {temp : Option Nat} {value : Bool} : s.pc = .sweepTest n temp →
    (s.entries n).map ThreadEntry.isDone = some value → Trans C s (.isDone n value)
      { s with pc := if value then .sweepJoin n temp else sweepFrom temp }
  | sweepJoin {n : Nat} {temp : Option Nat} : s.pc = .sweepJoin n temp →
    Ended (s.threads n) = true →
    Trans C s (.join n) { s.setThread n .joined with pc := .sweepRemove n temp }
  | sweepRemove {n : Nat} {temp : Option Nat} : s.pc = .sweepRemove n temp →
    Trans C s (.remove n) { s with head := s.head.erase n, pc := .sweepFree n temp }
  | sweepFree {n : Nat} {temp : Option Nat} : s.pc = .sweepFree n temp →
    Trans C s (.free n) { s.setEntry n none with pc := sweepFrom temp }
  | shutdownNext {n : Nat} {e : ThreadEntry} : s.pc = .shutdownNext n → s.entries n = some e →
    Trans C s (.next n) { s with pc := joinFrom e n (slistNext s.head n) }
  | shutdownJoin {n : Nat} {temp : Option Nat} {e : ThreadEntry} :
    s.pc = .shutdownJoin n temp → Ended (s.threads n) = true → s.entries n = some e →
    Trans C s (.join n) { s.setThread n .joined with pc := closeFrom e n temp }
  | shutdownClose {n fd : Nat} {temp : Option Nat} : s.pc = .shutdownClose n temp →
    (s.entries n).bind ThreadEntry.myClient = some fd →
    Trans C s (.close n fd) { s.setFd fd none with pc := .shutdownRemove n temp }
  | shutdownRemove {n : Nat} {temp : Option Nat} : s.pc = .shutdownRemove n temp →
    Trans C s (.remove n) { s with head := s.head.erase n, pc := .shutdownFree n temp }
  | shutdownFree {n : Nat} {temp : Option Nat} : s.pc = .shutdownFree n temp →
    Trans C s (.free n) { s.setEntry n none with pc := shutdownFrom temp }
  | cleanup : s.pc = .cleanup → Trans C s .cleanup { s with pc := .returned }
  | begin {n fd : Nat} : s.threads n = .created →
    (s.entries n).bind ThreadEntry.myClient = some fd →
    Trans C s (.begin n) (s.setThread n (.running (.start fd)))
  | thread {n : Nat} {call : Call} {c c' : Conn} {s' : Server} : s.threads n = .running c →
    Conn.Trans C c call c' → threadEffect s n call = some s' →
    Trans C s (.thread n call) (s'.setThread n (.running c'))

theorem trans_of_mainStep (h : mainStep s call = some s') : Trans C s call s' := by
  unfold mainStep at h
  split at h
  case h_1 hpc => obtain rfl := Option.some.inj h; exact .exit hpc
  case h_2 hpc => obtain rfl := Option.some.inj h; exact .loop hpc
  case h_3 hpc => obtain rfl := Option.some.inj h; exact .mallocFailed hpc
  case h_4 hpc => obtain rfl := Option.some.inj h; exact .malloc hpc
  case h_5 hpc => obtain rfl := Option.some.inj h; exact .acceptFailed hpc
  case h_6 hpc =>
    obtain ⟨rfl, h⟩ := Option.ite_none_right_eq_some.mp h
    obtain rfl := Option.some.inj h; exact .freeUnaccepted hpc
  case h_7 hpc =>
    obtain ⟨hfd, h⟩ := Option.ite_none_right_eq_some.mp h
    obtain rfl := Option.some.inj h; exact .accept hpc hfd
  case h_8 hpc =>
    obtain ⟨rfl, h⟩ := Option.ite_none_right_eq_some.mp h
    obtain rfl := Option.some.inj h; exact .insert hpc
  case h_9 hpc =>
    obtain ⟨rfl, h⟩ := Option.ite_none_right_eq_some.mp h
    obtain rfl := Option.some.inj h; exact .createFailed hpc
  case h_10 hpc =>
    obtain ⟨⟨rfl, hid⟩, h⟩ := Option.ite_none_right_eq_some.mp h
    obtain rfl := Option.some.inj h; exact .create hpc hid
  case h_11 hpc =>
    obtain ⟨rfl, h⟩ := Option.ite_none_right_eq_some.mp h
    obtain rfl := Option.some.inj h; exact .removeUncreated hpc
  case h_12 hpc =>
    obtain ⟨rfl, h⟩ := Option.ite_none_right_eq_some.mp h
    obtain rfl := Option.some.inj h; exact .freeUncreated hpc
  case h_13 hpc =>
    obtain ⟨rfl, h⟩ := Option.ite_none_right_eq_some.mp h
    obtain rfl := Option.some.inj h; exact .sweepNext hpc
  case h_14 hpc =>
    obtain ⟨⟨rfl, hdone⟩, h⟩ := Option.ite_none_right_eq_some.mp h
    obtain rfl := Option.some.inj h; exact .sweepTest hpc hdone
  case h_15 hpc =>
    obtain ⟨⟨rfl, hend⟩, h⟩ := Option.ite_none_right_eq_some.mp h
    obtain rfl := Option.some.inj h; exact .sweepJoin hpc hend
  case h_16 hpc =>
    obtain ⟨rfl, h⟩ := Option.ite_none_right_eq_some.mp h
    obtain rfl := Option.some.inj h; exact .sweepRemove hpc
  case h_17 hpc =>
    obtain ⟨rfl, h⟩ := Option.ite_none_right_eq_some.mp h
    obtain rfl := Option.some.inj h; exact .sweepFree hpc
  case h_18 hpc =>
    obtain ⟨rfl, h⟩ := Option.ite_none_right_eq_some.mp h
    split at h
    · exact nomatch h
    · next e he => obtain rfl := Option.some.inj h; exact .shutdownNext hpc he
  case h_19 hpc =>
    obtain ⟨⟨rfl, hend⟩, h⟩ := Option.ite_none_right_eq_some.mp h
    split at h
    · exact nomatch h
    · next e he => obtain rfl := Option.some.inj h; exact .shutdownJoin hpc hend he
  case h_20 hpc =>
    obtain ⟨⟨rfl, hfd⟩, h⟩ := Option.ite_none_right_eq_some.mp h
    obtain rfl := Option.some.inj h; exact .shutdownClose hpc hfd
  case h_21 hpc =>
    obtain ⟨rfl, h⟩ := Option.ite_none_right_eq_some.mp h
    obtain rfl := Option.some.inj h; exact .shutdownRemove hpc
  case h_22 hpc =>
    obtain ⟨rfl, h⟩ := Option.ite_none_right_eq_some.mp h
    obtain rfl := Option.some.inj h; exact .shutdownFree hpc
  case h_23 hpc => obtain rfl := Option.some.inj h; exact .cleanup hpc
  case h_24 => exact nomatch h

theorem trans_of_step (h : (lts C).step s call = some s') : Trans C s call s' := by
  change step C s call = some s' at h
  unfold step at h
  split at h
  · split at h
    · next hthread hfd => obtain rfl := Option.some.inj h; exact .begin hthread hfd
    · exact nomatch h
  · split at h
    · next c hthread =>
      obtain ⟨c', hc, h⟩ := Option.bind_eq_some_iff.mp h
      obtain ⟨s₁, heffect, h⟩ := Option.bind_eq_some_iff.mp h
      obtain rfl := Option.some.inj h
      exact .thread hthread (Conn.trans_of_step hc) heffect
    · exact nomatch h
  · exact trans_of_mainStep h

end Server

end Aesd
