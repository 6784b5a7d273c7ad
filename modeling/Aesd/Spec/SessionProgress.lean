import Aesd.Spec.Session

/-!
# Sessions end

A session gets through: as long as its thread has not returned there is a call that is granted
(`Phase.exists_call`), and every call brings it nearer to its end (`Phase.remaining_lt`). The
reading loop ends because each read is a part of the answer that was not sent before.
-/

namespace Aesd

variable {K : Kernel} {C : Libc} {i : Nat} {s s' : DeviceState} {log : LineLog} {client : Client}
  {received : List (List UInt8)} {sent : List UInt8} {c c' : Conn} {call : Call}
  {out : DeviceOutcome}

/-! ### What is still to be done -/

/-- A bound for the calls of a session that are still to come, from the pieces that have not
    been received and the bytes that have not been sent. -/
def remaining (client : Client) (log : LineLog) (received : List (List UInt8)) (sent : List UInt8)
    (c : Conn) : Nat :=
  let pieces := client.chunks.length - received.length
  let bytes := (client.answer log).length - sent.length
  match c.pc with
  | .openWrite => 4 * pieces + 2 * bytes + 15
  | .realloc => 4 * pieces + 2 * bytes + 14
  | .loopTop => 4 * pieces + 2 * bytes + 13
  | .malloc => 4 * pieces + 2 * bytes + 12
  | .recv => 4 * pieces + 2 * bytes + 11
  | .ioctl _ | .lock => 2 * bytes + 10
  | .write => 2 * bytes + 9
  | .unlock => 2 * bytes + 8
  | .openRead => 2 * bytes + 7
  | .seekRead | .readBack => 2 * bytes + 5
  | .seekSend | .sendBack => 2 * (bytes - c.readerBuf.length) + 6
  | .closeSendFailed => 5
  | .closeRead | .unlockFailed => 4
  | .closeTail => 3
  | .setDone => 2
  | .closeClient => 1
  | .returned => 0

theorem remaining_tail_le : remaining client log received sent c.tail ≤ 3 := by
  rcases c.tail_cases with ⟨-, htail⟩ | ⟨-, htail⟩ <;> rw [htail] <;> simp [remaining]

theorem remaining_freePacket_le : remaining client log received sent c.freePacket ≤ 3 :=
  remaining_tail_le

theorem Delivers.length_le {file : Option Nat} {answer : List UInt8}
    (h : Delivers s file sent answer) : sent.length ≤ answer.length := by
  obtain ⟨fd, p, -, -, -, rfl⟩ := h
  rw [List.length_append]
  exact Nat.le_add_right _ _

/-- Every call leaves less to be done. -/
theorem Phase.remaining_lt (h' : Phase log client (received ++ call.chunk?.toList)
    (sent ++ call.sent) s' c') (htrans : Conn.Trans C c call c')
    (hpieces : received ++ call.chunk?.toList <+: client.chunks) :
    remaining client log (received ++ call.chunk?.toList) (sent ++ call.sent) c' <
      remaining client log received sent c := by
  have hlen := hpieces.length_le
  cases htrans with
  | exit hpc | mallocFailed hpc | reallocFailed hpc | recvEnd hpc | unlockFailed hpc
  | openReadFailed hpc | ioctlFailed hpc _ | seekReadFailed hpc _ | closeReadFailed hpc _ =>
    refine remaining_tail_le.trans_lt ?_
    simp only [remaining, hpc]
    omega
  | seekReadEnd hpc _ | seekSendFailed hpc | closeRead hpc _ =>
    refine remaining_freePacket_le.trans_lt ?_
    simp only [remaining, hpc]
    omega
  | loop hpc =>
    cases c.packetBuffer <;> simp [remaining, hpc, Call.chunk?, Call.sent]
  | @recv chunk beyond hpc _ _ =>
    simp only [Call.chunk?, Option.toList_some, List.length_append, List.length_singleton] at hlen
    rcases c.received_cases C chunk beyond with
      ⟨-, hc⟩ | ⟨-, -, hc⟩ | ⟨-, -, -, hc⟩ | ⟨seekto, -, -, -, hc⟩ <;> rw [hc] <;>
      simp only [remaining, hpc, Call.chunk?, Call.sent, Option.toList_some, List.length_append,
        List.length_singleton, List.length_nil] <;>
      omega
  | readBack hpc _ hne _ | seekRead hpc _ hne _ =>
    -- what was read is part of the answer
    have hle := h'.2.2.length_le
    have hpos := List.length_pos_iff.mpr hne
    simp only [Call.sent, List.append_nil, List.length_append] at hle
    simp only [remaining, hpc, Call.sent, List.append_nil]
    omega
  | seekSend hpc | sendBack hpc =>
    simp only [remaining, hpc, Call.sent, List.length_append, if_true]
    omega
  | openWriteFailed hpc | openWrite hpc | malloc hpc | realloc hpc | ioctl hpc _ | lock hpc
  | writeFailed hpc _ _ | write hpc _ | unlock hpc | openRead hpc | readBackFailed hpc _
  | readBackEnd hpc _ | sendBackFailed hpc | closeSendFailed hpc | closeTail hpc | setDone hpc
  | closeClient hpc =>
    simp only [remaining, hpc, Call.chunk?, Call.sent, Option.toList_none, List.append_nil]
    omega

/-! ### The next call -/

/-- Between the lock and the unlock. -/
def Pc.locked : Pc → Bool
  | .write | .unlock | .unlockFailed => true
  | _ => false

@[simp] theorem Conn.locked_tail (c : Conn) : c.tail.pc.locked = false := by
  rcases c.tail_cases with ⟨-, htail⟩ | ⟨-, htail⟩ <;> rw [htail] <;> rfl

@[simp] theorem Conn.locked_freePacket (c : Conn) : c.freePacket.pc.locked = false :=
  locked_tail _

/-- What a session needs to go on: the mutex is its own where it writes and free elsewhere, and
    there are descriptors left. -/
structure Ready (i : Nat) (s : DeviceState) (c : Conn) : Prop where
  mutex : s.gWriteMutex = if c.pc.locked then some i else none
  room : ∃ n, ∀ fd, n ≤ fd → s.Free fd = true

/-- A thread gets between the lock and the unlock, and away, by these calls only. -/
theorem Conn.Trans.locked_eq (h : Conn.Trans C c call c') (hlock : call ≠ .lock)
    (hunlock : call ≠ .unlock) : c'.pc.locked = c.pc.locked := by
  cases h with
  | lock _ => exact absurd rfl hlock
  | unlockFailed _ => exact absurd rfl hunlock
  | unlock _ => exact absurd rfl hunlock
  | loop hpc => cases c.packetBuffer <;> simp [hpc, Pc.locked]
  | @recv chunk beyond hpc _ _ =>
    rcases c.received_cases C chunk beyond with
      ⟨-, hc⟩ | ⟨-, -, hc⟩ | ⟨-, -, -, hc⟩ | ⟨seekto, -, -, -, hc⟩ <;> rw [hc, hpc] <;> rfl
  | exit hpc | mallocFailed hpc | reallocFailed hpc | recvEnd hpc | openReadFailed hpc
  | ioctlFailed hpc _ | seekReadFailed hpc _ | closeReadFailed hpc _ =>
    rw [Conn.locked_tail, hpc]
    rfl
  | seekReadEnd hpc _ | seekSendFailed hpc | closeRead hpc _ =>
    rw [Conn.locked_freePacket, hpc]
    rfl
  | openWriteFailed hpc | openWrite hpc | malloc hpc | realloc hpc | ioctl hpc _
  | seekRead hpc _ _ _ | seekSend hpc | writeFailed hpc _ _ | write hpc _ | openRead hpc
  | readBackFailed hpc _ | readBackEnd hpc _ | readBack hpc _ _ _ | sendBackFailed hpc
  | sendBack hpc | closeSendFailed hpc | closeTail hpc | setDone hpc | closeClient hpc =>
    rw [hpc]
    rfl

theorem Ready.step (h : Ready i s c) (htrans : Conn.Trans C c call c')
    (hcall : DeviceServer.deviceCall K i s out call = some s') : Ready i s' c' := by
  refine ⟨?_, ?_⟩
  · by_cases hlock : call = .lock
    · subst hlock
      obtain ⟨m, hm, hs⟩ := Option.bind_eq_some_iff.mp hcall
      obtain rfl := Option.some.inj hs
      cases htrans with
      | lock hpc => exact (Mutex.lock_eq_some.mp hm).2
    by_cases hunlock : call = .unlock
    · subst hunlock
      obtain ⟨m, hm, hs⟩ := Option.bind_eq_some_iff.mp hcall
      obtain rfl := Option.some.inj hs
      have hnone := (Mutex.unlock_eq_some.mp hm).2
      cases htrans with
      | unlockFailed hpc => rw [Conn.locked_tail]; exact hnone
      | unlock hpc => exact hnone
    rw [DeviceServer.deviceCall_mutex hlock hunlock hcall, htrans.locked_eq hlock hunlock]
    exact h.mutex
  · obtain ⟨n, hfree⟩ := h.room
    have hother : ∀ fd, call.fd? ≠ some fd → n ≤ fd → s'.Free fd = true := by
      intro fd hne hle
      obtain ⟨hfiles, hsockets⟩ := DeviceServer.deviceCall_of_ne hne hcall
      rw [DeviceState.Free, hfiles, hsockets]
      exact hfree fd hle
    cases hfd : call.fd? with
    | none => exact ⟨n, fun fd hle => hother fd (by simp [hfd]) hle⟩
    | some fd =>
      refine ⟨max n (fd + 1), fun fd' hle => hother fd' ?_ (by omega)⟩
      rw [hfd, ne_eq, Option.some.injEq]
      omega

/-- A session that has not returned can make a call. -/
theorem Phase.exists_call (h : Phase log client received sent s c) (hready : Ready i s c)
    (hinv : s.driver.Inv K) (hfits : client.line.length ≤ K.kmallocMaxSize)
    (hpieces : received <+: client.chunks) (hpc : c.pc ≠ .returned) :
    ∃ call s' c', Granted (call, .ok) ∧ Conn.Trans C c call c' ∧
      DeviceServer.deviceCall K i s .ok call = some s' ∧
      received ++ call.chunk?.toList <+: client.chunks ∧ ∀ beyond, call ≠ .recv none beyond := by
  obtain ⟨n, hfree⟩ := hready.room
  obtain ⟨hfailed, hphase⟩ := h
  have hnone : received ++ (none : Option (List UInt8)).toList <+: client.chunks := by
    rw [Option.toList_none, List.append_nil]
    exact hpieces
  cases hc : c.pc <;> simp only [hc] at hphase
  case openWrite =>
    exact ⟨.openWrite (some n), _, _, ⟨rfl, rfl⟩, .openWrite hc,
      (DeviceServer.deviceCall_open (.inl rfl)).mpr ⟨hfree n le_rfl, rfl⟩, hnone, by simp⟩
  case loopTop => exact ⟨.exitFlag false, _, _, ⟨rfl, rfl⟩, .loop hc, rfl, hnone, by simp⟩
  case malloc => exact ⟨.malloc true, _, _, ⟨rfl, rfl⟩, .malloc hc, rfl, hnone, by simp⟩
  case recv =>
    obtain ⟨-, -, hpacket, hno, -⟩ := hphase
    obtain ⟨rest, hrest⟩ := hpieces
    cases rest with
    | nil =>
      -- everything was received, and the line has its newline
      obtain ⟨body, nl, hline, hnl, -⟩ := client.isLine.isLine
      rw [hpacket, ← List.append_nil received, hrest, hline, ← eq_of_beq hnl] at hno
      exact absurd (List.mem_append_right _ List.mem_cons_self) hno
    | cons chunk rest =>
      obtain ⟨hne, hle⟩ := client.isChunk chunk (by rw [← hrest]; simp)
      refine ⟨.recv (some chunk) [], _, _, ⟨rfl, trivial⟩, .recv hc hne hle, rfl,
        ⟨rest, ?_⟩, by simp⟩
      rw [← hrest]
      simp [Call.chunk?]
  case realloc => exact ⟨.realloc true, _, _, ⟨rfl, rfl⟩, .realloc hc, rfl, hnone, by simp⟩
  case ioctl seekto =>
    obtain ⟨-, -, -, fd, p, hfd, hat⟩ := hphase
    have hio : ∀ ok s', DeviceServer.deviceCall K i s .ok (.ioctl fd seekto ok) = some s' ↔ _ :=
      fun _ _ => DeviceServer.deviceCall_ioctl hinv hat.not_socket hat.files_eq rfl
    by_cases hnames : seekto.writeCmdOffset.toNat <
        (s.driver.commands.getD seekto.writeCmd.toNat []).length
    · exact ⟨.ioctl fd seekto true, _, _, ⟨rfl, trivial⟩, .ioctl hc hfd,
        (hio _ _).mpr (by rw [if_pos hnames]; exact ⟨rfl, rfl⟩), hnone, by simp⟩
    · exact ⟨.ioctl fd seekto false, _, _, ⟨rfl, trivial⟩, .ioctlFailed hc hfd,
        (hio _ _).mpr (by rw [if_neg hnames]; exact ⟨rfl, rfl⟩), hnone, by simp⟩
  case seekRead =>
    obtain ⟨-, fd, p, hfd, hat, hp, -⟩ := hphase
    have hlen := hinv.contents_length_lt
    obtain ⟨b, -, hle, -, hread⟩ := DeviceServer.deviceCall_read i hinv hat.not_socket
      hat.files_eq (by omega) (rfl : DeviceOutcome.ok.copied = true)
    by_cases hnil : b = []
    · subst hnil
      exact ⟨.read fd (some []), _, _, ⟨rfl, trivial⟩, .seekReadEnd hc hfd,
        (hread _ _).mpr ⟨rfl, rfl⟩, hnone, by simp⟩
    · exact ⟨.read fd (some b), _, _, ⟨rfl, trivial⟩, .seekRead hc hfd hnil hle,
        (hread _ _).mpr ⟨rfl, rfl⟩, hnone, by simp⟩
  case seekSend =>
    exact ⟨.send c.readerBuf true, _, _, ⟨rfl, rfl⟩, .seekSend hc, rfl, hnone, by simp⟩
  case lock =>
    have hmutex := hready.mutex
    rw [hc] at hmutex
    refine ⟨.lock, { s with gWriteMutex := some i }, _, ⟨rfl, trivial⟩, .lock hc, ?_, hnone, by simp⟩
    rw [DeviceServer.deviceCall, Mutex.lock_eq_some.mpr ⟨hmutex, rfl⟩]
    rfl
  case write =>
    obtain ⟨hstores, -, hreq, fd, p, hfd, hat⟩ := hphase
    have hline : client.line = c.packet := by
      have hline := client.isLine
      rw [hreq] at hline
      exact hline.1
    have hroom : s.driver.pending.length + c.packet.length ≤ K.kmallocMaxSize := by
      rw [hstores.pending_eq, ← hline, List.length_nil, Nat.zero_add]
      exact hfits
    obtain ⟨s', hwrite⟩ :=
      DeviceServer.exists_deviceCall_write i hinv hat.not_socket hat.files_eq hroom
    exact ⟨.write fd c.packet c.packet.length, s', _, ⟨rfl, rfl⟩, .write hc hfd, hwrite, hnone,
      by simp⟩
  case unlock =>
    have hmutex := hready.mutex
    rw [hc] at hmutex
    refine ⟨.unlock, { s with gWriteMutex := none }, _, ⟨rfl, trivial⟩, .unlock hc, ?_, hnone, by simp⟩
    rw [DeviceServer.deviceCall, Mutex.unlock_eq_some.mpr ⟨hmutex, rfl⟩]
    rfl
  case openRead =>
    exact ⟨.openRead (some n), _, _, ⟨rfl, rfl⟩, .openRead hc,
      (DeviceServer.deviceCall_open (.inr rfl)).mpr ⟨hfree n le_rfl, rfl⟩, hnone, by simp⟩
  case readBack =>
    obtain ⟨-, fd, p, hfd, hat, hp, -⟩ := hphase
    have hlen := hinv.contents_length_lt
    obtain ⟨b, -, hle, -, hread⟩ := DeviceServer.deviceCall_read i hinv hat.not_socket
      hat.files_eq (by omega) (rfl : DeviceOutcome.ok.copied = true)
    by_cases hnil : b = []
    · subst hnil
      exact ⟨.read fd (some []), _, _, ⟨rfl, trivial⟩, .readBackEnd hc hfd,
        (hread _ _).mpr ⟨rfl, rfl⟩, hnone, by simp⟩
    · exact ⟨.read fd (some b), _, _, ⟨rfl, trivial⟩, .readBack hc hfd hnil hle,
        (hread _ _).mpr ⟨rfl, rfl⟩, hnone, by simp⟩
  case sendBack =>
    exact ⟨.send c.readerBuf true, _, _, ⟨rfl, rfl⟩, .sendBack hc, rfl, hnone, by simp⟩
  case closeRead =>
    obtain ⟨s', hclose⟩ :=
      DeviceServer.exists_deviceCall_close i .ok hinv c.myFileRead
    exact ⟨.close c.myFileRead, s', _, ⟨rfl, trivial⟩, .closeRead hc hfailed, hclose, hnone, by simp⟩
  case closeTail =>
    obtain ⟨s', hclose⟩ :=
      DeviceServer.exists_deviceCall_close i .ok hinv c.myFileRead
    exact ⟨.close c.myFileRead, s', _, ⟨rfl, trivial⟩, .closeTail hc, hclose, hnone, by simp⟩
  case setDone => exact ⟨.setDone, _, _, ⟨rfl, trivial⟩, .setDone hc, rfl, hnone, by simp⟩
  case closeClient =>
    obtain ⟨s', hclose⟩ :=
      DeviceServer.exists_deviceCall_close i .ok hinv (some c.myClient)
    exact ⟨.close (some c.myClient), s', _, ⟨rfl, trivial⟩, .closeClient hc, hclose, hnone, by simp⟩
  case returned => exact absurd hc hpc

end Aesd
