import Aesd.Spec.LineLog

/-!
# One session

A session takes the log from one state to the next. `Phase` says for every place of the thread
what the driver holds and what the client has got; while the answer is read, what was sent and
what lies behind the file position are together the answer. Every call that is granted keeps it
(`Phase.step`), so a session that has returned has done what the log does with the request.
-/

namespace Aesd

variable {K : Kernel} {C : Libc} {i : Nat} {s s' : DeviceState} {log : LineLog} {client : Client}
  {received : List (List UInt8)} {sent : List UInt8} {c c' : Conn} {call : Call}
  {out : DeviceOutcome}

/-- The driver holds the lines of the log, and nothing else. -/
structure Driver.Stores (d : Driver) (log : LineLog) : Prop where
  commands_eq : d.commands = log.items
  pending_eq : d.pending = []

namespace Driver.Stores

variable {d : Driver}

theorem contents_eq (h : d.Stores log) : d.contents = log.contents := by
  rw [Driver.contents, h.commands_eq, BoundedLog.contents]

theorem init : aesdInitModule.Stores BoundedLog.empty :=
  ⟨(Driver.Holds.init .page).commands_eq, (Driver.Holds.init .page).pending_eq⟩

end Driver.Stores

namespace DeviceState

/-- Descriptor `fd` is a file of the device, at position `p`. -/
structure FileAt (s : DeviceState) (fd p : Nat) : Prop where
  not_socket : s.sockets fd = false
  files_eq : s.driver.files fd = some (p : Int)

theorem FileAt.of_setPos {fd p : Nat} (hfd : s.sockets fd = false) :
    ({ s with driver := s.driver.setPos fd (p : Int) } : DeviceState).FileAt fd p :=
  ⟨hfd, Driver.files_setPos_self _ _ _⟩

end DeviceState

/-- The answer that the client gets. -/
def Client.answer (client : Client) (log : LineLog) : List UInt8 := (log.serve client.request).1

/-- The log after the client. -/
def Client.after (client : Client) (log : LineLog) : LineLog := (log.serve client.request).2

/-- The file that is read for the answer is where the part not sent begins. -/
def Delivers (s : DeviceState) (file : Option Nat) (sent answer : List UInt8) : Prop :=
  ∃ fd p, file = some fd ∧ s.FileAt fd p ∧ p ≤ s.driver.contents.length ∧
    sent ++ s.driver.contents.drop p = answer

/-- The descriptor is a file of the device. -/
def IsFile (s : DeviceState) (file : Option Nat) : Prop := ∃ fd p, file = some fd ∧ s.FileAt fd p

/-- A call that is no write leaves the lines that are stored. -/
theorem Driver.Stores.of_deviceCall (h : s.driver.Stores log) (hinv : s.driver.Inv K)
    (hno : ∀ fd bytes ret, call ≠ .write fd bytes ret)
    (hcall : DeviceServer.deviceCall K i s out call = some s') : s'.driver.Stores log := by
  obtain ⟨hcommands, hpending⟩ := DeviceServer.deviceCall_kept hinv hno hcall
  exact ⟨hcommands.trans h.commands_eq, hpending.trans h.pending_eq⟩

/-- A read takes the next part of the answer, and nothing only when all of it was sent. -/
theorem Delivers.read {file : Option Nat} {answer : List UInt8} {fd : Nat}
    {bytes : Option (List UInt8)} (h : Delivers s file sent answer) (hinv : s.driver.Inv K)
    (hfile : file = some fd) (hcopied : out.copied = true)
    (hcall : DeviceServer.deviceCall K i s out (.read fd bytes) = some s') :
    ∃ b, bytes = some b ∧ Delivers s' file (sent ++ b) answer ∧ (b = [] → sent = answer) := by
  obtain ⟨fd', p, rfl, hat, hp, hanswer⟩ := h
  obtain rfl := Option.some.inj hfile
  have hlen := hinv.contents_length_lt
  obtain ⟨b, hb, -, hend, hread⟩ := DeviceServer.deviceCall_read i hinv hat.not_socket
    hat.files_eq (by omega) hcopied
  obtain ⟨rfl, rfl⟩ := (hread _ _).mp hcall
  have hle : p + b.length ≤ s.driver.contents.length := by
    have := congrArg List.length hb
    rw [List.length_take, List.length_drop] at this
    omega
  refine ⟨b, rfl, ⟨fd', p + b.length, rfl, .of_setPos hat.not_socket, ?_, ?_⟩, fun hnil => ?_⟩
  · rw [Driver.contents_setPos]
    exact hle
  · have hsplit : b ++ s.driver.contents.drop (p + b.length) = s.driver.contents.drop p := by
      calc b ++ s.driver.contents.drop (p + b.length)
          = (s.driver.contents.drop p).take b.length ++
              (s.driver.contents.drop p).drop b.length := by rw [← hb, List.drop_drop]
        _ = s.driver.contents.drop p := List.take_append_drop _ _
    rw [Driver.contents_setPos, List.append_assoc, hsplit, hanswer]
  · rw [List.drop_eq_nil_of_le (hend.mp hnil), List.append_nil] at hanswer
    exact hanswer

/-- What holds of a session at each place of its thread. -/
def Phase (log : LineLog) (client : Client) (received : List (List UInt8)) (sent : List UInt8)
    (s : DeviceState) (c : Conn) : Prop :=
  c.readFailed = false ∧
  match c.pc with
  | .openWrite =>
    s.driver.Stores log ∧ sent = [] ∧ c.packet = received.flatten ∧ newline ∉ c.packet
  | .loopTop | .malloc | .recv | .realloc =>
    s.driver.Stores log ∧ sent = [] ∧ c.packet = received.flatten ∧ newline ∉ c.packet ∧
      IsFile s c.gMyFileWrite
  | .ioctl seekto =>
    s.driver.Stores log ∧ sent = [] ∧ client.request = .seek seekto ∧ IsFile s c.gMyFileWrite
  | .lock | .write =>
    s.driver.Stores log ∧ sent = [] ∧ client.request = .append c.packet ∧
      IsFile s c.gMyFileWrite
  | .unlock | .openRead =>
    s.driver.Stores (client.after log) ∧ sent = [] ∧ client.request = .append c.packet
  | .seekRead =>
    s.driver.Stores (client.after log) ∧ Delivers s c.gMyFileWrite sent (client.answer log)
  | .seekSend =>
    s.driver.Stores (client.after log) ∧
      Delivers s c.gMyFileWrite (sent ++ c.readerBuf) (client.answer log)
  | .readBack =>
    s.driver.Stores (client.after log) ∧ Delivers s c.myFileRead sent (client.answer log)
  | .sendBack =>
    s.driver.Stores (client.after log) ∧
      Delivers s c.myFileRead (sent ++ c.readerBuf) (client.answer log)
  | .closeRead | .closeTail | .setDone | .closeClient | .returned =>
    s.driver.Stores (client.after log) ∧ sent = client.answer log
  | .unlockFailed | .closeSendFailed => False

namespace Phase

/-- At the end of the session only the answer counts. -/
theorem tail (hfailed : c.readFailed = false) (hstores : s.driver.Stores (client.after log))
    (hsent : sent = client.answer log) : Phase log client received sent s c.tail := by
  rcases c.tail_cases with ⟨-, htail⟩ | ⟨-, htail⟩ <;> rw [htail] <;>
    exact ⟨hfailed, hstores, hsent⟩

/-- The piece that brings the newline completes the line, and the line decides what is done. -/
theorem received_line {chunk beyond : List UInt8} (hfailed : c.readFailed = false)
    (hstores : s.driver.Stores log) (hfile : IsFile s c.gMyFileWrite)
    (hline : c.packet ++ chunk = client.line) (hnl : newline ∈ c.packet ++ chunk) :
    Phase log client received [] s (c.received C chunk beyond) := by
  have hrequest : client.request.IsLine (c.packet ++ chunk) := hline ▸ client.isLine
  have hdispatch : seekPrefix <+: c.packet ++ chunk ++ beyond ↔ seekPrefix <+: c.packet ++ chunk :=
    seekPrefix_prefix_iff hrequest.isLine
  have hseek : seekPrefix <+: c.packet ++ chunk ++ beyond → ∃ seekto, client.request = .seek seekto ∧
      scanSeek C ((c.packet ++ chunk ++ beyond).drop seekPrefix.length) = some seekto := by
    intro hpart
    cases hreq : client.request with
    | append appended =>
      rw [hreq] at hrequest
      exact absurd (hdispatch.mp hpart) (hrequest.1 ▸ hrequest.2.2)
    | seek seekto =>
      rw [hreq] at hrequest
      obtain ⟨t, -, rfl, hbytes⟩ := IsSeekLine.exists_plain (C := C) hrequest beyond
      exact ⟨_, rfl, by rw [hbytes, List.drop_left, SeekText.scanSeek_bytes]⟩
  rcases c.received_cases C chunk beyond with
    ⟨hno, -⟩ | ⟨-, hpart, hc⟩ | ⟨-, hpart, hscan, hc⟩ | ⟨seekto, -, hpart, hscan, hc⟩
  · exact absurd hnl hno
  · rw [hc]
    cases hreq : client.request with
    | append appended =>
      rw [hreq] at hrequest
      exact ⟨hfailed, hstores, rfl, by rw [hreq, hrequest.1], hfile⟩
    | seek seekto =>
      rw [hreq] at hrequest
      obtain ⟨t, -, -, hbytes⟩ := IsSeekLine.exists_plain (C := C) hrequest beyond
      rw [hbytes] at hpart
      exact absurd (List.prefix_append _ _) hpart
  · obtain ⟨seekto, -, hscan'⟩ := hseek hpart
    rw [hscan] at hscan'
    simp at hscan'
  · obtain ⟨seekto', hreq, hscan'⟩ := hseek hpart
    obtain rfl := Option.some.inj (hscan.symm.trans hscan')
    rw [hc]
    exact ⟨hfailed, hstores, rfl, hreq, hfile⟩

/-- A call that is granted keeps the phase. -/
theorem step (h : Phase log client received sent s c) (hinv : s.driver.Inv K)
    (hgranted : Granted (call, out)) (htrans : Conn.Trans C c call c')
    (hcall : DeviceServer.deviceCall K i s out call = some s')
    (hpieces : received ++ call.chunk?.toList <+: client.chunks)
    (hend : ∀ beyond, call = .recv none beyond → received = client.chunks) :
    Phase log client (received ++ call.chunk?.toList) (sent ++ call.sent) s' c' := by
  obtain ⟨hcopied, hgranted⟩ := hgranted
  have hkept := fun log (hstores : s.driver.Stores log) hno =>
    hstores.of_deviceCall hinv hno hcall
  obtain ⟨hfailed, hphase⟩ := h
  cases htrans with
  | openWriteFailed hpc => exact absurd hgranted (by simp)
  | exit hpc => exact absurd hgranted (by simp)
  | mallocFailed hpc => exact absurd hgranted (by simp)
  | reallocFailed hpc => exact absurd hgranted (by simp)
  | openReadFailed hpc => exact absurd hgranted (by simp)
  | seekSendFailed hpc => exact absurd hgranted (by simp)
  | sendBackFailed hpc => exact absurd hgranted (by simp)
  | writeFailed hpc _ hret => exact absurd hgranted hret
  | unlockFailed hpc => simp only [hpc] at hphase
  | closeSendFailed hpc => simp only [hpc] at hphase
  | closeReadFailed hpc hfailed' =>
    exact absurd (hfailed.symm.trans hfailed') Bool.false_ne_true
  | @openWrite fd hpc =>
    simp only [hpc] at hphase
    obtain ⟨hstores, rfl, hpacket, hno⟩ := hphase
    obtain ⟨hfree, rfl⟩ := (DeviceServer.deviceCall_open (.inl rfl)).mp hcall
    have hsocket : s.sockets fd = false := by
      simp only [DeviceState.Free, Bool.and_eq_true, Bool.not_eq_true'] at hfree
      exact hfree.1
    exact ⟨hfailed, hkept log hstores (by simp), rfl, by simpa [Call.chunk?] using hpacket, hno, fd, 0,
      rfl, .of_setPos hsocket⟩
  | loop hpc =>
    simp only [hpc] at hphase
    obtain rfl := Option.some.inj hcall
    simp only [Call.chunk?, Call.sent, Option.toList_none, List.append_nil]
    cases hbuffer : c.packetBuffer <;> exact ⟨hfailed, hphase⟩
  | malloc hpc =>
    simp only [hpc] at hphase
    obtain rfl := Option.some.inj hcall
    simp only [Call.chunk?, Call.sent, Option.toList_none, List.append_nil]
    exact ⟨hfailed, hphase⟩
  | realloc hpc =>
    simp only [hpc] at hphase
    obtain rfl := Option.some.inj hcall
    simp only [Call.chunk?, Call.sent, Option.toList_none, List.append_nil]
    exact ⟨hfailed, hphase⟩
  | @recvEnd beyond hpc =>
    -- the client ends after its newline, which ends the receiving
    simp only [hpc] at hphase
    obtain ⟨-, -, hpacket, hno, -⟩ := hphase
    obtain ⟨body, nl, hline, hnl, -⟩ := client.isLine.isLine
    rw [hpacket, hend beyond rfl, hline, ← eq_of_beq hnl] at hno
    exact absurd (List.mem_append_right _ List.mem_cons_self) hno
  | @recv chunk beyond hpc hne hle =>
    simp only [hpc] at hphase
    obtain ⟨hstores, rfl, hpacket, hno, hfile⟩ := hphase
    obtain rfl := Option.some.inj hcall
    have hflat : (received ++ [chunk]).flatten = c.packet ++ chunk := by
      rw [List.flatten_append, hpacket, List.flatten_singleton]
    by_cases hnl : newline ∈ c.packet ++ chunk
    · refine received_line hfailed hstores hfile ?_ hnl
      exact client.isLine.isLine.eq_of_prefix (hflat ▸ hpieces.flatten) hnl rfl
    · simp only [Conn.received, if_neg hnl]
      exact ⟨hfailed, hstores, rfl, hflat.symm, hnl, hfile⟩
  | @ioctlFailed fd seekto hpc hfd =>
    simp only [hpc] at hphase
    obtain ⟨hstores, rfl, hreq, fd', p, hfd', hat⟩ := hphase
    obtain rfl := Option.some.inj (hfd.symm.trans hfd')
    have hio := (DeviceServer.deviceCall_ioctl hinv hat.not_socket hat.files_eq hcopied).mp hcall
    rw [hstores.commands_eq] at hio
    split at hio
    · exact absurd hio.1 (by simp)
    · next hno =>
      refine tail hfailed ?_ ?_
      · rw [hio.2, Client.after, hreq]
        exact hstores
      · rw [Client.answer, hreq, LineLog.serve, BoundedLog.suffixFrom, if_neg hno]
        rfl
  | @ioctl fd seekto hpc hfd =>
    simp only [hpc] at hphase
    obtain ⟨hstores, rfl, hreq, fd', p, hfd', hat⟩ := hphase
    obtain rfl := Option.some.inj (hfd.symm.trans hfd')
    have hio := (DeviceServer.deviceCall_ioctl hinv hat.not_socket hat.files_eq hcopied).mp hcall
    split at hio
    · next hnames =>
      obtain ⟨-, rfl⟩ := hio
      have hafter : client.after log = log := by rw [Client.after, hreq]; rfl
      refine ⟨hfailed, by rw [hafter]; exact hkept log hstores (by simp), fd, _, hfd,
        .of_setPos hat.not_socket, (Driver.offsetOf_lt hnames).le, ?_⟩
      rw [Driver.contents_setPos, hstores.contents_eq, Client.answer, hreq, LineLog.serve,
        BoundedLog.suffixFrom, ← hstores.commands_eq, if_pos hnames]
      rfl
    · exact absurd hio.1 (by simp)
  | seekReadFailed hpc hfd =>
    simp only [hpc] at hphase
    obtain ⟨b, hb, -⟩ := hphase.2.read hinv hfd hcopied hcall
    exact absurd hb (by simp)
  | seekReadEnd hpc hfd =>
    simp only [hpc] at hphase
    obtain ⟨b, hb, -, hdone⟩ := hphase.2.read hinv hfd hcopied hcall
    obtain rfl := Option.some.inj hb
    simp only [Call.sent, List.append_nil]
    exact tail hfailed (hkept _ hphase.1 (by simp)) (hdone rfl)
  | seekRead hpc hfd hne hle =>
    simp only [hpc] at hphase
    obtain ⟨b, hb, hdelivers, -⟩ := hphase.2.read hinv hfd hcopied hcall
    obtain rfl := Option.some.inj hb
    simp only [Call.sent, List.append_nil]
    exact ⟨hfailed, hkept _ hphase.1 (by simp), hdelivers⟩
  | seekSend hpc =>
    simp only [hpc] at hphase
    obtain rfl := Option.some.inj hcall
    exact ⟨hfailed, hphase⟩
  | lock hpc =>
    simp only [hpc] at hphase
    obtain ⟨m, -, hm⟩ := Option.bind_eq_some_iff.mp hcall
    obtain rfl := Option.some.inj hm
    obtain ⟨hstores, rfl, hreq, fd, p, hfd, hat⟩ := hphase
    exact ⟨hfailed, hstores, rfl, hreq, fd, p, hfd, hat.not_socket, hat.files_eq⟩
  | @write fd hpc hfd =>
    simp only [hpc] at hphase
    obtain ⟨hstores, rfl, hreq, fd', p, hfd', hat⟩ := hphase
    obtain rfl := Option.some.inj (hfd.symm.trans hfd')
    have hline : Lines.IsLine isNewline c.packet := by
      have hline := client.isLine
      rw [hreq] at hline
      exact hline.1 ▸ hline.2.1
    obtain ⟨hcommands, hpending⟩ := DeviceServer.deviceCall_write hinv hat.not_socket rfl hcall
    rw [hstores.pending_eq, List.nil_append] at hcommands hpending
    refine ⟨hfailed, ⟨?_, hpending.trans hline.rest_eq⟩, rfl, hreq⟩
    rw [hcommands, hstores.commands_eq, commandLines, hline.lines_eq, Client.after, hreq]
    exact (BoundedLog.items_push log c.packet).symm
  | unlock hpc =>
    simp only [hpc] at hphase
    obtain ⟨m, -, hm⟩ := Option.bind_eq_some_iff.mp hcall
    obtain rfl := Option.some.inj hm
    obtain ⟨hstores, rfl, hreq⟩ := hphase
    exact ⟨hfailed, hstores, rfl, hreq⟩
  | @openRead fd hpc =>
    simp only [hpc] at hphase
    obtain ⟨hstores, rfl, hreq⟩ := hphase
    obtain ⟨hfree, rfl⟩ := (DeviceServer.deviceCall_open (.inr rfl)).mp hcall
    have hsocket : s.sockets fd = false := by
      simp only [DeviceState.Free, Bool.and_eq_true, Bool.not_eq_true'] at hfree
      exact hfree.1
    refine ⟨hfailed, hkept _ hstores (by simp), fd, 0, rfl, .of_setPos hsocket, Nat.zero_le _, ?_⟩
    rw [Driver.contents_setPos, hstores.contents_eq, Client.answer, Client.after, hreq]
    rfl
  | readBackFailed hpc hfd =>
    simp only [hpc] at hphase
    obtain ⟨b, hb, -⟩ := hphase.2.read hinv hfd hcopied hcall
    exact absurd hb (by simp)
  | readBackEnd hpc hfd =>
    simp only [hpc] at hphase
    obtain ⟨b, hb, -, hdone⟩ := hphase.2.read hinv hfd hcopied hcall
    obtain rfl := Option.some.inj hb
    simp only [Call.sent, List.append_nil]
    exact ⟨hfailed, hkept _ hphase.1 (by simp), hdone rfl⟩
  | readBack hpc hfd hne hle =>
    simp only [hpc] at hphase
    obtain ⟨b, hb, hdelivers, -⟩ := hphase.2.read hinv hfd hcopied hcall
    obtain rfl := Option.some.inj hb
    simp only [Call.sent, List.append_nil]
    exact ⟨hfailed, hkept _ hphase.1 (by simp), hdelivers⟩
  | sendBack hpc =>
    simp only [hpc] at hphase
    obtain rfl := Option.some.inj hcall
    exact ⟨hfailed, hphase⟩
  | closeRead hpc hfailed =>
    simp only [hpc] at hphase
    simp only [Call.sent, List.append_nil]
    exact tail hfailed (hkept _ hphase.1 (by simp)) hphase.2
  | closeTail hpc =>
    simp only [hpc] at hphase
    simp only [Call.sent, List.append_nil]
    exact ⟨hfailed, hkept _ hphase.1 (by simp), hphase.2⟩
  | setDone hpc =>
    simp only [hpc] at hphase
    simp only [Call.sent, List.append_nil]
    exact ⟨hfailed, hkept _ hphase.1 (by simp), hphase.2⟩
  | closeClient hpc =>
    simp only [hpc] at hphase
    simp only [Call.sent, List.append_nil]
    exact ⟨hfailed, hkept _ hphase.1 (by simp), hphase.2⟩

end Phase

end Aesd
