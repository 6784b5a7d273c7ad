import Aesd.Native.Connection

/-!
# The transitions of a connection thread

`Conn.Trans` lists what a thread can do, one constructor for each way a call can go, with
the state after it. `Conn.step_iff` says that these are the transitions of the model; proofs
about threads are case splits over `Trans` and never unfold `Conn.step`.
-/

namespace Aesd

/-- Before a call of the receiving part of the loop. -/
def Pc.receiving : Pc → Bool
  | .openWrite | .loopTop | .malloc | .recv | .realloc => true
  | _ => false

namespace Conn

variable {C : Libc} {c c' : Conn} {call : Call}

/-- The transitions of a thread. -/
inductive Trans (C : Libc) (c : Conn) : Call → Conn → Prop
  | openWriteFailed : c.pc = .openWrite → Trans C c (.openWrite none) { c with pc := .setDone }
  | openWrite {fd : Nat} : c.pc = .openWrite →
    Trans C c (.openWrite (some fd)) { c with gMyFileWrite := some fd, pc := .loopTop }
  | exit : c.pc = .loopTop → Trans C c (.exitFlag true) c.tail
  | loop : c.pc = .loopTop → Trans C c (.exitFlag false)
      { c with pc := if c.packetBuffer.isNone then .malloc else .recv }
  | mallocFailed : c.pc = .malloc → Trans C c (.malloc false) c.tail
  | malloc : c.pc = .malloc →
    Trans C c (.malloc true) { c with packetBuffer := some initialBufferSize, pc := .recv }
  | recvEnd {beyond : List UInt8} : c.pc = .recv → Trans C c (.recv none beyond) c.tail
  | recv {chunk beyond : List UInt8} : c.pc = .recv → chunk ≠ [] →
    chunk.length ≤ initialBufferSize →
    Trans C c (.recv (some chunk) beyond) (c.received C chunk beyond)
  | reallocFailed : c.pc = .realloc → Trans C c (.realloc false) c.tail
  | realloc : c.pc = .realloc → Trans C c (.realloc true)
      { c with packetBuffer := some (c.packet.length * 2), pc := .loopTop }
  | ioctlFailed {fd : Nat} {seekto : AesdSeekto} : c.pc = .ioctl seekto →
    c.gMyFileWrite = some fd → Trans C c (.ioctl fd seekto false) c.tail
  | ioctl {fd : Nat} {seekto : AesdSeekto} : c.pc = .ioctl seekto →
    c.gMyFileWrite = some fd → Trans C c (.ioctl fd seekto true) { c with pc := .seekRead }
  | seekReadFailed {fd : Nat} : c.pc = .seekRead → c.gMyFileWrite = some fd →
    Trans C c (.read fd none) c.tail
  | seekReadEnd {fd : Nat} : c.pc = .seekRead → c.gMyFileWrite = some fd →
    Trans C c (.read fd (some [])) c.freePacket
  | seekRead {fd : Nat} {bytes : List UInt8} : c.pc = .seekRead → c.gMyFileWrite = some fd →
    bytes ≠ [] → bytes.length ≤ initialBufferSize →
    Trans C c (.read fd (some bytes)) { c with readerBuf := bytes, pc := .seekSend }
  | seekSendFailed : c.pc = .seekSend → Trans C c (.send c.readerBuf false) c.freePacket
  | seekSend : c.pc = .seekSend → Trans C c (.send c.readerBuf true) { c with pc := .seekRead }
  | lock : c.pc = .lock → Trans C c .lock { c with pc := .write }
  | writeFailed {fd : Nat} {ret : Int} : c.pc = .write → c.gMyFileWrite = some fd →
    ret ≠ c.packet.length → Trans C c (.write fd c.packet ret) { c with pc := .unlockFailed }
  | write {fd : Nat} : c.pc = .write → c.gMyFileWrite = some fd →
    Trans C c (.write fd c.packet c.packet.length) { c with pc := .unlock }
  | unlockFailed : c.pc = .unlockFailed → Trans C c .unlock c.tail
  | unlock : c.pc = .unlock → Trans C c .unlock { c with pc := .openRead }
  | openReadFailed : c.pc = .openRead → Trans C c (.openRead none) c.tail
  | openRead {fd : Nat} : c.pc = .openRead →
    Trans C c (.openRead (some fd)) { c with myFileRead := some fd, pc := .readBack }
  | readBackFailed {fd : Nat} : c.pc = .readBack → c.myFileRead = some fd →
    Trans C c (.read fd none) { c with readFailed := true, pc := .closeRead }
  | readBackEnd {fd : Nat} : c.pc = .readBack → c.myFileRead = some fd →
    Trans C c (.read fd (some [])) { c with pc := .closeRead }
  | readBack {fd : Nat} {bytes : List UInt8} : c.pc = .readBack → c.myFileRead = some fd →
    bytes ≠ [] → bytes.length ≤ initialBufferSize →
    Trans C c (.read fd (some bytes)) { c with readerBuf := bytes, pc := .sendBack }
  | sendBackFailed : c.pc = .sendBack →
    Trans C c (.send c.readerBuf false) { c with pc := .closeSendFailed }
  | sendBack : c.pc = .sendBack → Trans C c (.send c.readerBuf true) { c with pc := .readBack }
  | closeSendFailed : c.pc = .closeSendFailed →
    Trans C c (.close c.myFileRead) { c with myFileRead := none, pc := .closeRead }
  | closeReadFailed : c.pc = .closeRead → c.readFailed = true →
    Trans C c (.close c.myFileRead) c.tail
  | closeRead : c.pc = .closeRead → c.readFailed = false →
    Trans C c (.close c.myFileRead) c.freePacket
  | closeTail : c.pc = .closeTail → Trans C c (.close c.myFileRead) { c with pc := .setDone }
  | setDone : c.pc = .setDone → Trans C c .setDone { c with pc := .closeClient }
  | closeClient : c.pc = .closeClient →
    Trans C c (.close (some c.myClient)) { c with pc := .returned }

theorem trans_of_step (h : step C c call = some c') : Trans C c call c' := by
  unfold step at h
  split at h
  case h_1 hpc => obtain rfl := Option.some.inj h; exact .openWriteFailed hpc
  case h_2 hpc => obtain rfl := Option.some.inj h; exact .openWrite hpc
  case h_3 hpc => obtain rfl := Option.some.inj h; exact .exit hpc
  case h_4 hpc => obtain rfl := Option.some.inj h; exact .loop hpc
  case h_5 hpc => obtain rfl := Option.some.inj h; exact .mallocFailed hpc
  case h_6 hpc => obtain rfl := Option.some.inj h; exact .malloc hpc
  case h_7 hpc => obtain rfl := Option.some.inj h; exact .recvEnd hpc
  case h_8 hpc =>
    split at h
    · next hchunk => obtain rfl := Option.some.inj h; exact .recv hpc hchunk.1 hchunk.2
    · exact nomatch h
  case h_9 hpc => obtain rfl := Option.some.inj h; exact .reallocFailed hpc
  case h_10 hpc => obtain rfl := Option.some.inj h; exact .realloc hpc
  case h_11 ok hpc =>
    split at h
    · next hfd =>
      obtain ⟨hfd, rfl⟩ := hfd
      obtain rfl := Option.some.inj h
      cases ok
      · exact .ioctlFailed hpc hfd
      · exact .ioctl hpc hfd
    · exact nomatch h
  case h_12 hpc =>
    split at h
    · next hfd =>
      split at h
      · obtain rfl := Option.some.inj h; exact .seekReadFailed hpc hfd
      · obtain rfl := Option.some.inj h; exact .seekReadEnd hpc hfd
      · next bytes hne =>
        split at h
        · next hlen =>
          obtain rfl := Option.some.inj h
          exact .seekRead hpc hfd hne hlen
        · exact nomatch h
    · exact nomatch h
  case h_13 ok hpc =>
    split at h
    · next hbytes =>
      subst hbytes
      obtain rfl := Option.some.inj h
      cases ok
      · exact .seekSendFailed hpc
      · exact .seekSend hpc
    · exact nomatch h
  case h_14 hpc => obtain rfl := Option.some.inj h; exact .lock hpc
  case h_15 ret hpc =>
    split at h
    · next hfd =>
      obtain ⟨hfd, rfl⟩ := hfd
      obtain rfl := Option.some.inj h
      by_cases hret : ret = c.packet.length
      · rw [if_pos hret, hret]; exact .write hpc hfd
      · rw [if_neg hret]; exact .writeFailed hpc hfd hret
    · exact nomatch h
  case h_16 hpc => obtain rfl := Option.some.inj h; exact .unlockFailed hpc
  case h_17 hpc => obtain rfl := Option.some.inj h; exact .unlock hpc
  case h_18 hpc => obtain rfl := Option.some.inj h; exact .openReadFailed hpc
  case h_19 hpc => obtain rfl := Option.some.inj h; exact .openRead hpc
  case h_20 hpc =>
    split at h
    · next hfd =>
      split at h
      · obtain rfl := Option.some.inj h; exact .readBackFailed hpc hfd
      · obtain rfl := Option.some.inj h; exact .readBackEnd hpc hfd
      · next bytes hne =>
        split at h
        · next hlen =>
          obtain rfl := Option.some.inj h
          exact .readBack hpc hfd hne hlen
        · exact nomatch h
    · exact nomatch h
  case h_21 ok hpc =>
    split at h
    · next hbytes =>
      subst hbytes
      obtain rfl := Option.some.inj h
      cases ok
      · exact .sendBackFailed hpc
      · exact .sendBack hpc
    · exact nomatch h
  case h_22 hpc =>
    split at h
    · next hfd => subst hfd; obtain rfl := Option.some.inj h; exact .closeSendFailed hpc
    · exact nomatch h
  case h_23 hpc =>
    split at h
    · next hfd =>
      subst hfd
      obtain rfl := Option.some.inj h
      cases hfailed : c.readFailed
      · exact .closeRead hpc hfailed
      · exact .closeReadFailed hpc hfailed
    · exact nomatch h
  case h_24 hpc =>
    split at h
    · next hfd => subst hfd; obtain rfl := Option.some.inj h; exact .closeTail hpc
    · exact nomatch h
  case h_25 hpc => obtain rfl := Option.some.inj h; exact .setDone hpc
  case h_26 hpc =>
    split at h
    · next hfd => subst hfd; obtain rfl := Option.some.inj h; exact .closeClient hpc
    · exact nomatch h
  case h_27 => exact nomatch h

theorem step_of_trans (h : Trans C c call c') : step C c call = some c' := by
  cases h <;> simp_all [step]

theorem step_eq_some : step C c call = some c' ↔ Trans C c call c' :=
  ⟨trans_of_step, step_of_trans⟩

/-- A run that starts with a transition. -/
theorem run_cons_of_trans {es : List Call} {c₁ : Conn} (h : Trans C c call c₁)
    (hrun : (lts C).run c₁ es = some c') : (lts C).run c (call :: es) = some c' :=
  Lts.run_cons_eq_some.mpr ⟨c₁, step_of_trans h, hrun⟩

/-! ### Where a thread goes on -/

/-- At the end `my_file_read` is closed if it is open. -/
theorem tail_cases (c : Conn) :
    (c.myFileRead.isSome ∧ c.tail = { c with packetBuffer := none, pc := .closeTail }) ∨
      (c.myFileRead = none ∧ c.tail = { c with packetBuffer := none, pc := .setDone }) := by
  cases hfd : c.myFileRead with
  | none => exact .inr ⟨rfl, by simp [tail, hfd]⟩
  | some fd => exact .inl ⟨rfl, by simp [tail, hfd]⟩

@[simp] theorem receiving_tail (c : Conn) : c.tail.pc.receiving = false := by
  rcases c.tail_cases with ⟨-, htail⟩ | ⟨-, htail⟩ <;> rw [htail] <;> rfl

@[simp] theorem receiving_freePacket (c : Conn) : c.freePacket.pc.receiving = false :=
  receiving_tail _

/-- The four ways a received chunk is taken. -/
theorem received_cases (C : Libc) (c : Conn) (chunk beyond : List UInt8) :
    (newline ∉ c.packet ++ chunk ∧
      c.received C chunk beyond = { c with packet := c.packet ++ chunk, pc := .realloc }) ∨
    (newline ∈ c.packet ++ chunk ∧ ¬ seekPrefix <+: c.packet ++ chunk ++ beyond ∧
      c.received C chunk beyond = { c with packet := c.packet ++ chunk, pc := .lock }) ∨
    (newline ∈ c.packet ++ chunk ∧ seekPrefix <+: c.packet ++ chunk ++ beyond ∧
      scanSeek C ((c.packet ++ chunk ++ beyond).drop seekPrefix.length) = none ∧
      c.received C chunk beyond = { c with packet := c.packet ++ chunk, pc := .loopTop }) ∨
    ∃ seekto, newline ∈ c.packet ++ chunk ∧ seekPrefix <+: c.packet ++ chunk ++ beyond ∧
      scanSeek C ((c.packet ++ chunk ++ beyond).drop seekPrefix.length) = some seekto ∧
      c.received C chunk beyond = { c with packet := c.packet ++ chunk, pc := .ioctl seekto } := by
  by_cases hnl : newline ∈ c.packet ++ chunk
  · by_cases hprefix : seekPrefix <+: c.packet ++ chunk ++ beyond
    · have hprefix' := List.isPrefixOf_iff_prefix.mpr hprefix
      cases hscan : scanSeek C ((c.packet ++ chunk ++ beyond).drop seekPrefix.length) with
      | none =>
        exact .inr (.inr (.inl ⟨hnl, hprefix, rfl, by
          simp only [received, if_pos hnl, if_pos hprefix', hscan]⟩))
      | some seekto =>
        exact .inr (.inr (.inr ⟨seekto, hnl, hprefix, rfl, by
          simp only [received, if_pos hnl, if_pos hprefix', hscan]⟩))
    · have hprefix' : ¬ seekPrefix.isPrefixOf (c.packet ++ chunk ++ beyond) = true :=
        fun h => hprefix (List.isPrefixOf_iff_prefix.mp h)
      exact .inr (.inl ⟨hnl, hprefix, by simp only [received, if_pos hnl, if_neg hprefix']⟩)
  · exact .inl ⟨hnl, by simp only [received, if_neg hnl]⟩

end Conn

end Aesd
