import Aesd.Spec.DeviceFiles
import Aesd.Spec.PacketIsolation

/-!
# Answers while others write

A connection reads its answer with one call after another and holds no lock meanwhile. File
positions count from the oldest stored command, so a command that another client's write drops
moves everything under the reader. `DeviceServer.snapshots_of_steady` says that this is the only
danger: where the bytes delivered so far stay the first ones of the device between a read and
the next, each answer is what the device held at one moment.
-/

namespace Aesd

/-- From where on a request asks for the contents: a write for all of them, a successful seek
    request from its byte on, if there is one. -/
def Driver.startOf (d : Driver) : Call → Option Nat
  | .write .. => some 0
  | .ioctl _ seekto true =>
    if seekto.writeCmdOffset.toNat < (d.commands.getD seekto.writeCmd.toNat []).length then
      some (d.offsetOf seekto.writeCmd.toNat seekto.writeCmdOffset.toNat)
    else none
  | _ => none

/-- `bytes` is the answer to the request, as the device is. -/
def Driver.Answers (d : Driver) (request : Call) (bytes : List UInt8) : Prop :=
  ∃ start, d.startOf request = some start ∧ bytes = d.contents.drop start

/-- `bytes` is the answer to the request up to position `p`, as the device is. -/
def Driver.AnswersUpTo (d : Driver) (request : Call) (p : Nat) (bytes : List UInt8) : Prop :=
  ∃ start, d.startOf request = some start ∧ start ≤ p ∧ p ≤ d.contents.length ∧
    bytes = (d.contents.take p).drop start

namespace DeviceServer

variable {K : Kernel} {C : Libc} {i : Nat} {es : List (Nat × DeviceCall)}
  {g g' : Threads Nat DeviceState (Option Conn)}

/-- The bytes that the client of connection `i` has got. -/
def sentTo (i : Nat) (es : List (Nat × DeviceCall)) : List UInt8 :=
  (callsOf i es).flatMap Call.sent

/-- The client of connection `i` has got the answer to a request of it, as the device was at
    some moment since the request. -/
def Moment (K : Kernel) (C : Libc) (i : Nat) (es : List (Nat × DeviceCall)) : Prop :=
  ∃ request moment g, request ∈ callsOf i moment ∧ moment <+: es ∧
    (lts K C).run init moment = some g ∧ g.shared.driver.Answers request (sentTo i es)

/-- Where the reading of a connection comes to its end, its client has got the answer to a
    request of it, as the device was at some moment since the request. -/
def Snapshots (K : Kernel) (C : Libc) (es : List (Nat × DeviceCall)) : Prop :=
  ∀ pre i fd out post, es = pre ++ (i, .call (.read fd (some [])) out) :: post → Moment K C i pre

/-- From the call `prev`, after which the device was `d₀`, to a read at position `p` of `d`: the
    byte that a seek request names has stayed where it was; the bytes before the position have
    stayed the first ones, or there was nothing behind the position and still is not. -/
def Unshifted (prev : Call) (d₀ d : Driver) (p : Nat) : Prop :=
  match prev with
  | .ioctl .. => d₀.startOf prev = some p → d.startOf prev = some p
  | _ => p ≤ d₀.contents.length → d.contents.take p = d₀.contents.take p ∨
      p = d₀.contents.length ∧ d.contents.length ≤ p

/-- Connection `i` does nothing but send. -/
def OnlySends (i : Nat) (mid : List (Nat × DeviceCall)) : Prop :=
  ∀ c ∈ mid, c.1 = i → ∃ bytes ok out, c.2 = .call (.send bytes ok) out

/-- From every call on a file to the next read of it, nothing is shifted. -/
def Steady (K : Kernel) (C : Libc) (es : List (Nat × DeviceCall)) : Prop :=
  ∀ pre i fd prev out mid bytes out' post g₀ g p,
    es = pre ++ (i, .call prev out) :: mid ++ (i, .call (.read fd bytes) out') :: post →
    prev.fd? = some fd → OnlySends i mid →
    (lts K C).run init (pre ++ [(i, .call prev out)]) = some g₀ →
    (lts K C).run init (pre ++ (i, .call prev out) :: mid) = some g →
    g.shared.driver.files fd = some ((p : Nat) : Int) →
      Unshifted prev g₀.shared.driver g.shared.driver p

end DeviceServer

/-! ### The answer as the device changes -/

namespace Driver

variable {K : Kernel} {d d₀ : Driver} {request prev : Call} {p : Nat} {sent : List UInt8}

theorem startOf_eq_some {start : Nat} (h : d.startOf request = some start) :
    (∃ fd bytes ret, request = .write fd bytes ret ∧ start = 0) ∨
    ∃ fd seekto, request = .ioctl fd seekto true ∧
      seekto.writeCmdOffset.toNat < (d.commands.getD seekto.writeCmd.toNat []).length ∧
      start = d.offsetOf seekto.writeCmd.toNat seekto.writeCmdOffset.toNat := by
  unfold startOf at h
  split at h
  · exact .inl ⟨_, _, _, rfl, (Option.some.inj h).symm⟩
  · obtain ⟨hnames, heq⟩ := Option.ite_none_right_eq_some.mp h
    exact .inr ⟨_, _, rfl, hnames, (Option.some.inj heq).symm⟩
  · simp at h

theorem startOf_le {start : Nat} (h : d.startOf request = some start) :
    start ≤ d.contents.length := by
  rcases startOf_eq_some h with ⟨_, _, _, -, rfl⟩ | ⟨fd, seekto, -, hnames, rfl⟩
  · exact Nat.zero_le _
  · exact (offsetOf_lt hnames).le

/-- Commands behind the old ones leave the start of an answer where it was. -/
theorem startOf_mono (h : d₀.commands <+: d.commands) {start : Nat}
    (hstart : d₀.startOf request = some start) : d.startOf request = some start := by
  rcases startOf_eq_some hstart with ⟨_, _, _, rfl, rfl⟩ | ⟨fd, seekto, rfl, hnames, rfl⟩
  · rfl
  · obtain ⟨added, hadded⟩ := h
    have hx : seekto.writeCmd.toNat < d₀.commands.length := by
      by_contra hge
      rw [List.getD_eq_getElem?_getD, List.getElem?_eq_none (by omega)] at hnames
      simp at hnames
    have hnames' : seekto.writeCmdOffset.toNat <
        (d.commands.getD seekto.writeCmd.toNat []).length := by
      rw [← hadded, List.getD_append _ _ _ _ hx]
      exact hnames
    rw [startOf, if_pos hnames', offsetOf, offsetOf, ← hadded,
      List.take_append_of_le_length hx.le]

/-- Where the reading is: just at the start after a seek request, behind the byte that was asked
    for after a read. -/
def Past (d₀ : Driver) (prev request : Call) (p : Nat) : Prop :=
  match prev with
  | .ioctl .. => request = prev ∧ d₀.startOf request = some p
  | _ => ∀ fd seekto ok start, request = .ioctl fd seekto ok →
      d₀.startOf request = some start → start < p

/-- The part of the answer that was delivered is that of the device as it is now; or it was all
    of the answer before, and nothing more comes. -/
theorem AnswersUpTo.of_unshifted (h : d₀.AnswersUpTo request p sent) (hpast : d₀.Past prev request p)
    (hunshifted : DeviceServer.Unshifted prev d₀ d p)
    (hlines₀ : ∀ command ∈ d₀.commands, Lines.IsLine isNewline command)
    (hlines : ∀ command ∈ d.commands, Lines.IsLine isNewline command) :
    d.AnswersUpTo request p sent ∨ d₀.Answers request sent ∧ d.contents.length ≤ p := by
  obtain ⟨start, hstart, hle, hlen, rfl⟩ := h
  cases prev with
  | ioctl fd seekto ok =>
    obtain ⟨rfl, hp⟩ := hpast
    obtain rfl := Option.some.inj (hp.symm.trans hstart)
    refine .inl ⟨p, hunshifted hp, le_rfl, startOf_le (hunshifted hp), ?_⟩
    rw [List.drop_eq_nil_of_le (by simp), List.drop_eq_nil_of_le (by simp)]
  | _ =>
    rcases hunshifted hlen with htake | ⟨hend₀, hend⟩
    · have hlen' : p ≤ d.contents.length := by
        have := congrArg List.length htake
        rw [List.length_take, List.length_take] at this
        omega
      refine .inl ⟨start, ?_, hle, hlen', by rw [htake]⟩
      rcases startOf_eq_some hstart with ⟨_, _, _, rfl, rfl⟩ | ⟨fd, seekto, rfl, hnames, rfl⟩
      · rfl
      · obtain ⟨hnames', hoffset⟩ := Lines.offset_of_take_eq hlines₀ hlines htake hnames
          (hpast fd seekto true _ rfl hstart)
        rw [startOf, if_pos hnames', offsetOf, hoffset, offsetOf]
    · refine .inr ⟨⟨start, hstart, ?_⟩, hend⟩
      rw [List.take_of_length_le hend₀.ge]

/-- A read adds the part that it delivers. -/
theorem AnswersUpTo.append (h : d.AnswersUpTo request p sent) {b : List UInt8}
    (hb : b = (d.contents.drop p).take b.length) :
    d.AnswersUpTo request (p + b.length) (sent ++ b) := by
  obtain ⟨start, hstart, hle, hlen, rfl⟩ := h
  have hblen : p + b.length ≤ d.contents.length := by
    have := congrArg List.length hb
    rw [List.length_take, List.length_drop] at this
    omega
  refine ⟨start, hstart, by omega, hblen, ?_⟩
  rw [List.take_add, ← hb, List.drop_append_of_le_length]
  rw [List.length_take]
  omega

/-- At the end of the contents the answer is complete. -/
theorem AnswersUpTo.answers (h : d.AnswersUpTo request p sent) (hend : d.contents.length ≤ p) :
    d.Answers request sent := by
  obtain ⟨start, hstart, -, -, rfl⟩ := h
  exact ⟨start, hstart, by rw [List.take_of_length_le hend]⟩

end Driver

namespace DeviceServer

variable {K : Kernel} {C : Libc} {i : Nat} {es : List (Nat × DeviceCall)}
  {g g' : Threads Nat DeviceState (Option Conn)}

/-! ### The reading of one connection -/

theorem sentTo_concat_self (i : Nat) (es : List (Nat × DeviceCall)) (call : Call)
    (out : DeviceOutcome) :
    sentTo i (es ++ [(i, .call call out)]) = sentTo i es ++ call.sent := by
  simp [sentTo, callsOf_concat_self, DeviceCall.call?]

theorem sentTo_concat_of_ne {j : Nat} (h : j ≠ i) (es : List (Nat × DeviceCall))
    (l : DeviceCall) : sentTo i (es ++ [(j, l)]) = sentTo i es := by
  rw [sentTo, callsOf_concat_of_ne h, sentTo]

theorem callsOf_mono (i : Nat) {es fs : List (Nat × DeviceCall)} (h : es <+: fs) :
    callsOf i es ⊆ callsOf i fs := by
  obtain ⟨rest, rfl⟩ := h
  rw [callsOf, callsOf, Lts.labelsOf_append, List.filterMap_append]
  exact List.subset_append_left _ _

/-- Connection `i` has made a request and reads file `fd`. It has done nothing but send since
    its last call on the file, after which `sent` was the answer up to where the file is. -/
inductive Reading (K : Kernel) (C : Libc) (s : DeviceState) (i fd : Nat) :
    List (Nat × DeviceCall) → List UInt8 → Prop
  | since {pre mid : List (Nat × DeviceCall)} {prev request : Call} {out : DeviceOutcome}
    {g₀ : Threads Nat DeviceState (Option Conn)} {p : Nat} {sent : List UInt8} :
    prev.fd? = some fd → OnlySends i mid →
    (lts K C).run init (pre ++ [(i, .call prev out)]) = some g₀ →
    request ∈ callsOf i (pre ++ [(i, .call prev out)]) →
    s.driver.files fd = some (p : Int) → g₀.shared.driver.AnswersUpTo request p sent →
    g₀.shared.driver.Past prev request p →
    Reading K C s i fd (pre ++ (i, .call prev out) :: mid) sent

/-- A step that is no call on the file, and leaves it where it is. -/
theorem Reading.concat {s s' : DeviceState} {fd : Nat} {sent : List UInt8}
    (h : Reading K C s i fd es sent) {c : Nat × DeviceCall}
    (hsends : c.1 = i → ∃ bytes ok out, c.2 = .call (.send bytes ok) out)
    (hfiles : s'.driver.files fd = s.driver.files fd) :
    Reading K C s' i fd (es ++ [c]) sent := by
  cases h with
  | since hfd honly hrun hrequest hpos hanswer hpast =>
    rw [List.append_assoc, List.cons_append]
    refine .since hfd (fun c' hc' => ?_) hrun hrequest (hfiles.trans hpos) hanswer hpast
    rcases List.mem_append.mp hc' with hc' | hc'
    · exact honly c' hc'
    · rw [List.mem_singleton.mp hc']
      exact hsends

/-- A call on the file starts a new stretch. -/
theorem Reading.of_call {fd p : Nat} {prev request : Call} {out : DeviceOutcome}
    {sent : List UInt8} (hfd : prev.fd? = some fd)
    (hrun : (lts K C).run init (es ++ [(i, .call prev out)]) = some g')
    (hrequest : request ∈ callsOf i (es ++ [(i, .call prev out)]))
    (hpos : g'.shared.driver.files fd = some (p : Int))
    (hanswer : g'.shared.driver.AnswersUpTo request p sent)
    (hpast : g'.shared.driver.Past prev request p) :
    Reading K C g'.shared i fd (es ++ [(i, .call prev out)]) sent :=
  .since hfd (by simp [OnlySends]) hrun hrequest hpos hanswer hpast

/-- A read where nothing is shifted goes on with the answer, or finds its end. -/
theorem Reading.read {fd : Nat} {bytes : List UInt8} {out : DeviceOutcome}
    (h : Reading K C g.shared i fd es (sentTo i es)) (hrun : (lts K C).run init es = some g)
    (hrun' : (lts K C).run init (es ++ [(i, .call (.read fd (some bytes)) out)]) = some g')
    (hcall : deviceCall K i g.shared out (.read fd (some bytes)) = some g'.shared)
    (hsocket : g.shared.sockets fd = false)
    (hsteady : Steady K C (es ++ [(i, .call (.read fd (some bytes)) out)])) :
    (bytes = [] → Moment K C i es) ∧
    (bytes ≠ [] → Reading K C g'.shared i fd
      (es ++ [(i, .call (.read fd (some bytes)) out)]) (sentTo i es ++ bytes)) := by
  cases h with
  | @since pre mid prev request out₀ g₀ p _ hfd honly hrun₀ hrequest hpos hanswer hpast =>
    have hinv := driverInv_of_run hrun
    have hshift := hsteady pre i fd prev out₀ mid _ out [] g₀ g p rfl hfd honly hrun₀ hrun hpos
    have hp : p < 2 ^ 63 := by
      obtain ⟨-, -, -, hlen, -⟩ := hanswer
      exact hlen.trans_lt (driverInv_of_run hrun₀).contents_length_lt
    have hsplit : pre ++ (i, .call prev out₀) :: mid = (pre ++ [(i, .call prev out₀)]) ++ mid := by
      simp
    obtain ⟨hbytes, hend, hg'⟩ := deviceCall_read_some hinv hsocket hpos hp hcall
    have hmem : request ∈ callsOf i (pre ++ (i, .call prev out₀) :: mid) :=
      callsOf_mono i (hsplit ▸ List.prefix_append _ _) hrequest
    have hcases := hanswer.of_unshifted hpast hshift (driverInv_of_run hrun₀).isLine hinv.isLine
    constructor
    · intro hnil
      rcases hcases with hnow | ⟨hthen, -⟩
      · exact ⟨request, _, g, hmem, List.prefix_rfl, hrun, hnow.answers (hend.mp hnil)⟩
      · refine ⟨request, _, g₀, hrequest, ?_, hrun₀, hthen⟩
        rw [hsplit]
        exact List.prefix_append _ _
    · intro hnil
      have hnow := hcases.resolve_right fun hthen => hnil (hend.mpr hthen.2)
      refine .of_call (p := p + bytes.length) rfl hrun' (callsOf_subset _ _ _ hmem) ?_ ?_ ?_
      · rw [hg']
        exact Driver.files_setPos_self _ _ _
      · rw [hg']
        exact hnow.append hbytes
      · -- what a seek request asks for starts before the byte just read
        rintro fd' seekto ok start - hstart
        rw [hg'] at hstart
        obtain ⟨start', hstart', hle, -⟩ := hnow
        obtain rfl : start = start' := Option.some.inj (hstart.symm.trans hstart')
        have := List.length_pos_iff.mpr hnil
        omega

/-! ### All connections -/

/-- What the client of connection `i` has got, as the thread goes on. -/
def Progress (K : Kernel) (C : Libc) (es : List (Nat × DeviceCall)) (s : DeviceState) (i : Nat) :
    Option Conn → Prop
  | none => sentTo i es = []
  | some c =>
    match c.pc with
    | .openWrite | .loopTop | .malloc | .recv | .realloc | .ioctl _ | .lock | .write =>
      sentTo i es = []
    | .unlock | .openRead =>
      sentTo i es = [] ∧ ∃ fd bytes ret, .write fd bytes ret ∈ callsOf i es
    | .seekRead | .readBack =>
      ∃ fd, c.file? = some fd ∧ Reading K C s i fd es (sentTo i es)
    | .seekSend | .sendBack =>
      ∃ fd, c.file? = some fd ∧ Reading K C s i fd es (sentTo i es ++ c.readerBuf)
    | _ => True

/-- A step of another thread. -/
theorem Progress.concat_of_ne {t : Option Conn} {j : Nat} {l : DeviceCall} {s s' : DeviceState}
    (h : Progress K C es s i t) (hji : j ≠ i)
    (hfiles : ∀ fd, t.bind Conn.file? = some fd → s'.driver.files fd = s.driver.files fd) :
    Progress K C (es ++ [(j, l)]) s' i t := by
  have hsent := sentTo_concat_of_ne hji es l
  have hcalls := callsOf_concat_of_ne hji es l
  cases t with
  | none => exact hsent.trans h
  | some c =>
    cases hpc : c.pc <;> simp only [Progress, hpc, hsent, hcalls] at h ⊢
    case unlock | openRead => exact h
    case seekRead | readBack | seekSend | sendBack =>
      obtain ⟨fd, hfd, hreading⟩ := h
      exact ⟨fd, hfd, hreading.concat (fun hj => absurd hj hji) (hfiles fd hfd)⟩
    all_goals exact h

/-- At the end of `handle_connection` nothing is delivered any more. -/
theorem Progress.tail (s : DeviceState) (c : Conn) : Progress K C es s i (some c.tail) := by
  rcases c.tail_cases with ⟨-, htail⟩ | ⟨-, htail⟩ <;> rw [htail] <;> trivial

/-- A call of the thread itself. -/
theorem Progress.call {c c' : Conn} {call : Call} {out : DeviceOutcome}
    (h : Progress K C es g.shared i (some c)) (hrun : (lts K C).run init es = some g)
    (hrun' : (lts K C).run init (es ++ [(i, .call call out)]) = some g') (hfiles : FilesInv g)
    (hc : g.locals i = some c) (htrans : Conn.Trans C c call c')
    (hcall : deviceCall K i g.shared out call = some g'.shared)
    (hsteady : Steady K C (es ++ [(i, .call call out)])) :
    Progress K C (es ++ [(i, .call call out)]) g'.shared i (some c') := by
  have hinv := driverInv_of_run hrun
  have hsent := sentTo_concat_self i es call out
  have hfileOf : fileOf g i = c.file? := by rw [fileOf, hc]; rfl
  -- a call that sends nothing, before the thread reads
  have hquiet : call.sent = [] → sentTo i es = [] → sentTo i (es ++ [(i, .call call out)]) = [] := by
    intro hnothing hnil
    rw [hsent, hnothing, hnil, List.append_nil]
  have hread : ∀ {fd : Nat} {bytes : List UInt8}, call = .read fd (some bytes) → bytes ≠ [] →
      c.file? = some fd → Reading K C g.shared i fd es (sentTo i es) →
      Reading K C g'.shared i fd (es ++ [(i, .call call out)])
        (sentTo i (es ++ [(i, .call call out)]) ++ bytes) := by
    rintro fd bytes rfl hne hfd hreading
    rw [hsent, show (Call.read fd (some bytes)).sent = [] from rfl, List.append_nil]
    exact (hreading.read hrun hrun' hcall (hfiles.file i fd (hfileOf.trans hfd)).1 hsteady).2 hne
  have hsend : call = .send c.readerBuf true →
      (∃ fd, c.file? = some fd ∧ Reading K C g.shared i fd es (sentTo i es ++ c.readerBuf)) →
      ∃ fd, c.file? = some fd ∧ Reading K C g'.shared i fd (es ++ [(i, .call call out)])
        (sentTo i (es ++ [(i, .call call out)])) := by
    rintro rfl ⟨fd, hfd, hreading⟩
    obtain hs : g.shared = g'.shared := Option.some.inj hcall
    rw [hsent, ← hs]
    exact ⟨fd, hfd, hreading.concat (fun _ => ⟨_, _, _, rfl⟩) rfl⟩
  cases htrans with
  | openWriteFailed hpc | sendBackFailed hpc | closeSendFailed hpc | closeTail hpc | setDone hpc
  | closeClient hpc | readBackFailed hpc _ | readBackEnd hpc _ | writeFailed hpc _ _ => trivial
  | exit hpc | mallocFailed hpc | recvEnd hpc | reallocFailed hpc | ioctlFailed hpc _
  | seekReadFailed hpc _ | unlockFailed hpc | openReadFailed hpc | closeReadFailed hpc _ =>
    exact .tail _ _
  | seekReadEnd hpc _ | seekSendFailed hpc | closeRead hpc _ => exact .tail _ _
  | openWrite hpc | malloc hpc | realloc hpc | lock hpc =>
    simp only [Progress, hpc] at h ⊢
    exact hquiet rfl h
  | loop hpc =>
    simp only [Progress, hpc] at h
    cases c.packetBuffer <;> exact hquiet rfl h
  | @recv chunk beyond hpc _ _ =>
    simp only [Progress, hpc] at h
    rcases c.received_cases C chunk beyond with
      ⟨-, hc'⟩ | ⟨-, -, hc'⟩ | ⟨-, -, -, hc'⟩ | ⟨seekto, -, -, -, hc'⟩ <;> rw [hc'] <;>
      exact hquiet rfl h
  | @ioctl fd seekto hpc hfd =>
    simp only [Progress, hpc] at h
    have hfile : c.file? = some fd := by simp [Conn.file?, hpc, hfd]
    obtain ⟨hsocket, hopen⟩ := hfiles.file i fd (hfileOf.trans hfile)
    obtain ⟨p, hpos⟩ := Option.isSome_iff_exists.mp hopen
    obtain ⟨hnames, hg'⟩ := deviceCall_ioctl_true hinv hsocket hpos hcall
    have hstart : g'.shared.driver.startOf (.ioctl fd seekto true) =
        some (g.shared.driver.offsetOf seekto.writeCmd.toNat seekto.writeCmdOffset.toNat) := by
      rw [hg']
      exact if_pos hnames
    refine ⟨fd, hfd, .of_call rfl hrun' (by simp [callsOf_concat_self, DeviceCall.call?])
      (by rw [hg']; exact Driver.files_setPos_self _ _ _) ?_ ⟨rfl, hstart⟩⟩
    refine ⟨_, hstart, le_rfl, Driver.startOf_le hstart, ?_⟩
    rw [hquiet rfl h, List.drop_eq_nil_of_le (by simp)]
  | write hpc hfd =>
    simp only [Progress, hpc] at h
    exact ⟨hquiet rfl h, _, _, _, by
      rw [callsOf_concat_self]
      exact List.mem_append_right _ (List.mem_singleton_self _)⟩
  | unlock hpc =>
    simp only [Progress, hpc] at h
    obtain ⟨hnil, fd, bytes, ret, hmem⟩ := h
    exact ⟨hquiet rfl hnil, fd, bytes, ret, callsOf_subset _ _ _ hmem⟩
  | @openRead fd hpc =>
    simp only [Progress, hpc] at h
    obtain ⟨hnil, fd', bytes, ret, hmem⟩ := h
    obtain ⟨-, hg'⟩ := (deviceCall_open (.inr rfl)).mp hcall
    refine ⟨fd, rfl, .of_call (p := 0) rfl hrun' (callsOf_subset _ _ _ hmem)
      (by rw [hg']; exact Driver.files_setPos_self _ _ _) ?_ ?_⟩
    · exact ⟨0, rfl, le_rfl, Nat.zero_le _, by rw [hquiet rfl hnil]; rfl⟩
    · rintro fd'' seekto ok start heq
      simp at heq
  | seekRead hpc hfd hne _ | readBack hpc hfd hne _ =>
    simp only [Progress, hpc] at h
    obtain ⟨fd, hfile, hreading⟩ := h
    simp only [Conn.file?, hpc] at hfile
    obtain rfl := Option.some.inj (hfd.symm.trans hfile)
    exact ⟨_, hfd, hread rfl hne (by simp [Conn.file?, hpc, hfd]) hreading⟩
  | seekSend hpc | sendBack hpc =>
    simp only [Progress, hpc] at h
    obtain ⟨fd, hfile, hreading⟩ := hsend rfl h
    simp only [Conn.file?, hpc] at hfile
    exact ⟨fd, hfile, hreading⟩

theorem Steady.of_append {fs : List (Nat × DeviceCall)} (h : Steady K C (es ++ fs)) :
    Steady K C es := by
  intro pre i fd prev out mid bytes out' post g₀ g p hes
  exact h pre i fd prev out mid bytes out' (post ++ fs) g₀ g p (by rw [hes]; simp)

theorem progress_of_run (hrun : (lts K C).run init es = some g)
    (hunused : (lts K C).Along ClosesUnused init es) (hsteady : Steady K C es) (i : Nat) :
    Progress K C es g.shared i (g.locals i) := by
  refine Lts.run_induction (P := fun es g => (lts K C).Along ClosesUnused init es →
    Steady K C es → Progress K C es g.shared i (g.locals i)) (fun _ _ => ?_)
    (fun es g c g' hes ih hstep hunused hsteady => ?_) hrun hunused hsteady
  · show sentTo i [] = []
    rfl
  obtain ⟨hbefore, hlast⟩ := Lts.along_concat.mp hunused
  have hprogress := ih hbefore hsteady.of_append
  have hfiles := filesInv_of_run hes hbefore
  have hrun' := Lts.run_concat_eq_some.mpr ⟨g, hes, hstep⟩
  obtain ⟨j, l⟩ := c
  obtain ⟨s', t, htrans, rfl⟩ := lts_step hstep
  by_cases hji : j = i
  · subst hji
    simp only [Function.update_self]
    cases htrans with
    | accept ht _ =>
      rw [ht] at hprogress
      simpa [Progress, sentTo, callsOf_concat_self, Conn.start, DeviceCall.call?] using hprogress
    | call hc htrans hcall =>
      rw [hc] at hprogress
      exact hprogress.call hes hrun' hfiles hc htrans hcall hsteady
  · simp only [Function.update_of_ne (Ne.symm hji)]
    exact hprogress.concat_of_ne hji fun fd hfd => hfiles.files_eq (hlast g hes) hstep hji hfd

/-! ### Runs in which nothing is dropped -/

theorem commands_of_few_lines (hrun : (lts K C).run init es = some g) (hall : AllWritten es)
    (hfew : (Lines.lines isTaggedNewline (taggedStream K C es)).length ≤ 10) :
    g.shared.driver.commands =
      (Lines.lines isTaggedNewline (taggedStream K C es)).map (List.map Prod.snd) := by
  rw [(streamInv_of_run hrun hall).commands_eq, storedCommands, List.rtake_of_length_le hfew]

/-- As long as all that is written is ten lines at most, nothing is shifted. -/
theorem steady_of_few_lines (hall : AllWritten es)
    (hfew : (Lines.lines isTaggedNewline (taggedStream K C es)).length ≤ 10) :
    Steady K C es := by
  intro pre i fd prev out mid bytes out' post g₀ g p hes hfd _ hrun₀ hrun _
  have hsplit : es = (pre ++ [(i, .call prev out)]) ++
      (mid ++ (i, .call (.read fd bytes) out') :: post) := by
    rw [hes]
    simp
  have hsplit' : es = (pre ++ (i, .call prev out) :: mid) ++
      (i, .call (.read fd bytes) out') :: post := by
    rw [hes]
  have hlines : ∀ start rest, es = start ++ rest →
      Lines.lines isTaggedNewline (taggedStream K C start) <+:
        Lines.lines isTaggedNewline (taggedStream K C es) := by
    rintro start rest rfl
    exact Lines.lines_prefix (Lts.prefix_collect_append _ _ _ _)
  -- the commands after the call on the file are the first ones at the read
  have hgrows : g₀.shared.driver.commands <+: g.shared.driver.commands := by
    have hall₀ : AllWritten (pre ++ [(i, .call prev out)]) :=
      fun c hc => hall c (hsplit ▸ List.mem_append_left _ hc)
    have hall' : AllWritten (pre ++ (i, .call prev out) :: mid) :=
      fun c hc => hall c (hsplit' ▸ List.mem_append_left _ hc)
    rw [commands_of_few_lines hrun₀ hall₀ ((hlines _ _ hsplit).length_le.trans hfew),
      commands_of_few_lines hrun hall' ((hlines _ _ hsplit').length_le.trans hfew)]
    refine List.IsPrefix.map _ (Lines.lines_prefix ?_)
    rw [show pre ++ (i, .call prev out) :: mid = (pre ++ [(i, .call prev out)]) ++ mid by simp]
    exact Lts.prefix_collect_append _ _ _ _
  have htake : p ≤ g₀.shared.driver.contents.length →
      g.shared.driver.contents.take p = g₀.shared.driver.contents.take p := by
    intro hp
    obtain ⟨added, hadded⟩ := hgrows
    rw [Driver.contents, ← hadded, List.flatten_append]
    exact List.take_append_of_le_length hp
  cases prev with
  | ioctl fd seekto ok => exact Driver.startOf_mono hgrows
  | _ => exact fun hp => .inl (htake hp)

/-! ### Every answer is a snapshot -/

/-- However the threads take turns and whatever fails, each client whose answer comes to its end
    got what the device held at one moment, as long as nothing is shifted under a reader. -/
theorem snapshots_of_steady (hrun : (lts K C).run init es = some g)
    (hunused : (lts K C).Along ClosesUnused init es) (hsteady : Steady K C es) :
    Snapshots K C es := by
  intro pre i fd out post hes
  have hsplit : es = (pre ++ [(i, .call (.read fd (some [])) out)]) ++ post := by
    rw [hes, List.append_assoc, List.singleton_append]
  rw [hsplit] at hrun hunused hsteady
  obtain ⟨g', hrun', -⟩ := Lts.run_append_eq_some.mp hrun
  obtain ⟨g, hpre, hstep⟩ := Lts.run_concat_eq_some.mp hrun'
  have hunused' := Lts.Along.of_append (Lts.Along.of_append hunused)
  have hsteady' := hsteady.of_append
  have hfiles := filesInv_of_run hpre hunused'
  have hprogress := progress_of_run hpre hunused' hsteady'.of_append i
  -- the thread was reading
  have hreads : ∀ {c : Conn} {s' : DeviceState}, g.locals i = some c → c.file? = some fd →
      (∃ fd', c.file? = some fd' ∧ Reading K C g.shared i fd' pre (sentTo i pre)) →
      deviceCall K i g.shared out (.read fd (some [])) = some s' → g'.shared = s' →
      Moment K C i pre := by
    rintro c s' hc hfd ⟨fd', hfd', hreading⟩ hcall rfl
    obtain rfl := Option.some.inj (hfd.symm.trans hfd')
    have hsocket := (hfiles.file i fd (by rw [fileOf, hc]; exact hfd)).1
    exact (hreading.read hpre hrun' hcall hsocket hsteady').1 rfl
  obtain ⟨s', t, htrans, rfl⟩ := lts_step hstep
  cases htrans with
  | @call _ _ c c' _ hc htrans hcall =>
    rw [hc] at hprogress
    cases htrans with
    | seekReadEnd hpc hfd | readBackEnd hpc hfd =>
      simp only [Progress, hpc] at hprogress
      exact hreads hc (by simp [Conn.file?, hpc, hfd]) hprogress hcall rfl
    | seekRead _ _ hne _ | readBack _ _ hne _ => exact absurd rfl hne

/-- One client sends `"a\n"` and has read this when another one sends `"b\n"`, which it is
    delivered too. -/
def answersOverlap : List (Nat × DeviceCall) :=
  packetCalls 0 3 [97, newline] ++
    [Call.openRead (some 7), .read 7 (some [97, newline])].map (fun call => (0, .call call .ok)) ++
    packetCalls 1 5 [98, newline] ++
    [Call.send [97, newline] true, .read 7 (some [98, newline]), .send [98, newline] true,
      .read 7 (some [])].map fun call => (0, .call call .ok)

theorem allWritten_readCalls (i : Nat) {calls : List Call}
    (hno : ∀ call ∈ calls, ∀ fd bytes ret, call ≠ .write fd bytes ret) :
    AllWritten (calls.map fun call => (i, .call call .ok)) := by
  rintro c hc call out hcall fd bytes ret rfl
  obtain ⟨call', hmem, rfl⟩ := List.mem_map.mp hc
  exact absurd (DeviceCall.call.inj hcall).1 (hno call' hmem fd bytes ret)

theorem AllWritten.append {fs : List (Nat × DeviceCall)} (h : AllWritten es)
    (h' : AllWritten fs) : AllWritten (es ++ fs) :=
  fun c hc => (List.mem_append.mp hc).elim (h c) (h' c)

theorem snapshots_of_steady_answersOverlap :
    ∃ g, (lts .page .glibc).run init answersOverlap = some g ∧
      Snapshots .page .glibc answersOverlap := by
  have hall : AllWritten answersOverlap :=
    (((allWritten_packetCalls 0 3 _).append (allWritten_readCalls 0 (by simp))).append
      (allWritten_packetCalls 1 5 _)).append (allWritten_readCalls 0 (by simp))
  exact ⟨((lts .page .glibc).run init answersOverlap).get (by decide), (Option.some_get _).symm,
    snapshots_of_steady (Option.some_get (by decide)).symm
      (along_closesUnused (by simp [answersOverlap, packetCalls]))
      (steady_of_few_lines hall (by decide))⟩

/-- A client sends a line of ten bytes and nine empty ones, and has read the first when another
    client's line drops it. There are ten bytes left, so the reader finds the end. -/
def answerCutOff : List (Nat × DeviceCall) :=
  packetCalls 0 3 (List.replicate 9 97 ++ List.replicate 10 newline) ++
    [Call.openRead (some 7), .read 7 (some (List.replicate 9 97 ++ [newline]))].map
      (fun call => (0, .call call .ok)) ++
    packetCalls 1 5 [newline] ++
    [Call.send (List.replicate 9 97 ++ [newline]) true, .read 7 (some [])].map
      fun call => (0, .call call .ok)

/-- The client has got what the device never held. -/
theorem answerCutOff_not_snapshots :
    ((lts .page .glibc).run init answerCutOff).isSome ∧
      ¬ Snapshots .page .glibc answerCutOff := by
  refine ⟨by decide, fun h => ?_⟩
  obtain ⟨request, moment, g, hmem, hmoment, hrun, start, hstart, hbytes⟩ :=
    h answerCutOff.dropLast 0 7 .ok [] rfl
  have hpre : moment <+: answerCutOff := hmoment.trans (List.dropLast_prefix _)
  have hnever : ∀ moment ∈ answerCutOff.inits, ((lts .page .glibc).run init moment).all
      (fun g => g.shared.driver.contents ≠ sentTo 0 answerCutOff.dropLast) = true := by
    decide +kernel
  have hasks : (callsOf 0 answerCutOff).all
      (fun call => match call with | .ioctl .. => false | _ => true) = true := by
    decide
  have hrequest := List.all_eq_true.mp hasks request (callsOf_mono 0 hpre hmem)
  rcases Driver.startOf_eq_some hstart with ⟨_, _, _, -, rfl⟩ | ⟨_, _, rfl, -, -⟩
  · have hne := hnever moment ((List.mem_inits _ _).mpr hpre)
    rw [hrun, Option.all_some, decide_eq_true_eq] at hne
    exact hne hbytes.symm
  · simp at hrequest

end DeviceServer

end Aesd
