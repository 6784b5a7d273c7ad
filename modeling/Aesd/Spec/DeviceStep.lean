import Aesd.Native.DeviceServer
import Aesd.Spec.ConnectionStep
import Aesd.Spec.SeekCorrect
import Aesd.Spec.StreamCorrect
import Aesd.Spec.WriteAtomic

/-!
# The transitions of the server with the char device

A step of the server is a client accepted or a call of one connection (`DeviceServer.Trans`). A
call reaches the driver as one system call at most, so the driver stays in order
(`driverInv_of_run`), and it adds to the written stream what a write to the device adds
(`Holds.deviceCall`). What one connection does is a run of that connection (`conn_of_run`).
-/

namespace Aesd

variable {K : Kernel} {C : Libc} {i : Nat} {s s' : DeviceState} {out : DeviceOutcome}

namespace DeviceState

theorem driverCall_eq_some {op : Op} {answer : Ret → Bool} :
    s.driverCall K op answer = some s' ↔
      ∃ r d, s.driver.step K op = some (r, d) ∧ answer r = true ∧
        s' = { s with driver := d } := by
  simp only [driverCall, Option.bind_eq_bind, Option.bind_eq_some_iff, Prod.exists,
    Option.ite_none_right_eq_some, Option.some.injEq, eq_comm (b := s')]

theorem fileCall_eq_some {fd : Nat} {op : Op} {answer : Ret → Bool} :
    s.fileCall K fd op answer = some s' ↔
      s.sockets fd = true ∧ s' = s ∨
      s.sockets fd = false ∧ s.driverCall K op answer = some s' := by
  unfold fileCall
  cases s.sockets fd with
  | true => simp [eq_comm]
  | false => simp

/-- A call on a file of the device reaches the driver. -/
theorem fileCall_of_not_socket {fd : Nat} {op : Op} {answer : Ret → Bool} {r : Ret} {d : Driver}
    (hfd : s.sockets fd = false) (hstep : s.driver.step K op = some (r, d)) :
    s.fileCall K fd op answer = some s' ↔ answer r = true ∧ s' = { s with driver := d } := by
  rw [fileCall_eq_some, driverCall_eq_some, hfd, hstep]
  simp

end DeviceState

/-- Opening, allocating, writing, copying to the user and sending succeed, and the server is not
    told to exit. Whether a seek request succeeds is for the driver to say. -/
def Granted (c : Call × DeviceOutcome) : Prop :=
  c.2.copied = true ∧
    match c.1 with
    | .openWrite fd | .openRead fd => fd.isSome
    | .exitFlag set => set = false
    | .malloc granted | .realloc granted => granted = true
    | .write _ bytes ret => ret = bytes.length
    | .send _ ok => ok = true
    | _ => True

/-- The descriptor that a call opens, uses or closes. -/
def Call.fd? : Call → Option Nat
  | .openWrite fd | .openRead fd | .close fd => fd
  | .ioctl fd _ _ | .write fd _ _ | .read fd _ => some fd
  | _ => none

namespace DeviceServer

/-- What can happen on a thread. -/
inductive Trans (K : Kernel) (C : Libc) (i : Nat) (s : DeviceState) (t : Option Conn) :
    DeviceCall → DeviceState → Option Conn → Prop
  | accept {myClient : Nat} : t = none → s.Free myClient = true →
    Trans K C i s t (.accept myClient)
      { s with sockets := Function.update s.sockets myClient true } (some (.start myClient))
  | call {call : Call} {out : DeviceOutcome} {c c' : Conn} {s' : DeviceState} : t = some c →
    Conn.Trans C c call c' → deviceCall K i s out call = some s' →
    Trans K C i s t (.call call out) s' (some c')

theorem trans_of_step {t t' : Option Conn} {l : DeviceCall}
    (h : step K C i s t l = some (s', t')) : Trans K C i s t l s' t' := by
  cases l with
  | accept myClient =>
    simp only [step, Option.ite_none_right_eq_some, Option.some.injEq, Prod.mk.injEq,
      Option.isNone_iff_eq_none] at h
    obtain ⟨⟨ht, hfree⟩, rfl, rfl⟩ := h
    exact .accept ht hfree
  | call call out =>
    cases t with
    | none => simp [step] at h
    | some c =>
      simp only [step, Option.bind_eq_bind, Option.bind_eq_some_iff, Option.some.injEq,
        Prod.mk.injEq] at h
      obtain ⟨c', hc, s₁, hs, rfl, rfl⟩ := h
      exact .call rfl (Conn.trans_of_step hc) hs

theorem lts_step {g g' : Threads Nat DeviceState (Option Conn)} {l : DeviceCall}
    (h : (lts K C).step g (i, l) = some g') :
    ∃ s t, Trans K C i g.shared (g.locals i) l s t ∧
      g' = ⟨s, Function.update g.locals i t⟩ := by
  obtain ⟨s, t, hstep, rfl⟩ := Lts.interleave_step.mp h
  exact ⟨s, t, trans_of_step hstep, rfl⟩

/-! ### What a call does to the driver -/

/-- The bytes that a call writes to the device, unless its descriptor is a socket by now. -/
def toDevice (s : DeviceState) : Call → List UInt8
  | .write fd bytes _ => if s.sockets fd then [] else bytes
  | _ => []

/-- A call that returns its count if it is a write. -/
def WritesAll (call : Call) : Prop :=
  ∀ fd bytes ret, call = .write fd bytes ret → ret = bytes.length

/-- The system call that a call makes on a file of the device. -/
def opOf (out : DeviceOutcome) : Call → Option Op
  | .openWrite (some fd) | .openRead (some fd) => some (.open fd)
  | .ioctl fd seekto _ => some (.ioctl fd aesdcharIocseekto seekto out.copied)
  | .write fd bytes _ => some (.write fd bytes out.write)
  | .read fd _ => some (.read fd initialBufferSize out.copied)
  | .close (some fd) => some (.release fd)
  | _ => none

theorem fd?_eq_of_opOf {call : Call} {op : Op} (h : opOf out call = some op) :
    call.fd? = some op.fd := by
  unfold opOf at h
  split at h <;> cases h <;> rfl

/-- Only writes write. -/
theorem exists_write_of_opOf {call : Call} {fd : Nat} {data : List UInt8} {w : WriteOutcome}
    (h : opOf out call = some (.write fd data w)) : ∃ ret, call = .write fd data ret := by
  unfold opOf at h
  split at h <;> cases h
  exact ⟨_, rfl⟩

theorem written_eq_toDevice {call : Call} {op : Op} (hop : opOf out call = some op)
    (hsocket : s.sockets op.fd = false) : op.written = toDevice s call := by
  unfold opOf at hop
  split at hop <;> cases hop <;> first | rfl | simp_all [Op.written, Op.fd, toDevice]

theorem toDevice_eq_nil {call : Call} (h : ∀ op, opOf out call = some op → s.sockets op.fd = true) :
    toDevice s call = [] := by
  unfold toDevice
  split
  · next fd bytes ret => exact if_pos (h _ rfl)
  · rfl

/-- All that a call of connection `i` can do to what the threads share. -/
inductive Effect (K : Kernel) (i : Nat) (s : DeviceState) (out : DeviceOutcome) :
    Call → DeviceState → Prop
  /-- The driver is called. -/
  | driver {call : Call} {op : Op} {r : Ret} {d : Driver} : opOf out call = some op →
    s.sockets op.fd = false → s.driver.step K op = some (r, d) →
    (∀ fd bytes ret, call = .write fd bytes ret → r.val = ret) →
    Effect K i s out call { s with driver := d }
  /-- A socket is closed. -/
  | closeSocket {fd : Nat} : s.sockets fd = true →
    Effect K i s out (.close (some fd))
      { s with sockets := Function.update s.sockets fd false }
  | lock : s.gWriteMutex = none → Effect K i s out .lock { s with gWriteMutex := some i }
  | unlock : s.gWriteMutex = some i → Effect K i s out .unlock { s with gWriteMutex := none }
  /-- Neither the mutex nor a file of the device is concerned. -/
  | other {call : Call} : (∀ op, opOf out call = some op → s.sockets op.fd = true) →
    call ≠ .lock → call ≠ .unlock → Effect K i s out call s

theorem effect_of_fileCall {call : Call} {op : Op} {answer : Ret → Bool}
    (hop : opOf out call = some op) (hlock : call ≠ .lock) (hunlock : call ≠ .unlock)
    (hret : ∀ r, answer r = true → ∀ fd bytes ret, call = .write fd bytes ret → r.val = ret)
    (h : s.fileCall K op.fd op answer = some s') : Effect K i s out call s' := by
  rcases DeviceState.fileCall_eq_some.mp h with ⟨hsocket, rfl⟩ | ⟨hsocket, h⟩
  · exact .other (fun op' hop' => Option.some.inj (hop.symm.trans hop') ▸ hsocket) hlock hunlock
  · obtain ⟨r, d, hstep, hanswer, rfl⟩ := DeviceState.driverCall_eq_some.mp h
    exact .driver hop hsocket hstep (hret r hanswer)

theorem effect_of_open {call : Call} {fd : Nat} (hop : opOf out call = some (.open fd))
    (hno : ∀ fd bytes ret, call ≠ .write fd bytes ret)
    (h : (if s.Free fd then s.driverCall K (.open fd) fun r => r.val = fd else none) = some s') :
    Effect K i s out call s' := by
  obtain ⟨hfree, h⟩ := Option.ite_none_right_eq_some.mp h
  obtain ⟨r, d, hstep, -, rfl⟩ := DeviceState.driverCall_eq_some.mp h
  simp only [DeviceState.Free, Bool.and_eq_true, Bool.not_eq_true'] at hfree
  exact .driver hop hfree.1 hstep fun _ _ _ heq => absurd heq (hno _ _ _)

theorem effect_of_deviceCall {call : Call} (h : deviceCall K i s out call = some s') :
    Effect K i s out call s' := by
  unfold deviceCall at h
  split at h
  case h_1 fd => exact effect_of_open rfl nofun h
  case h_2 fd => exact effect_of_open rfl nofun h
  case h_3 fd seekto ok => exact effect_of_fileCall rfl nofun nofun (fun _ _ => nofun) h
  case h_4 =>
    obtain ⟨m, hm, h⟩ := Option.bind_eq_some_iff.mp h
    obtain rfl := Option.some.inj h
    obtain ⟨hfree, rfl⟩ := Mutex.lock_eq_some.mp hm
    exact .lock hfree
  case h_5 fd bytes ret =>
    refine effect_of_fileCall rfl nofun nofun (fun r hr fd' bytes' ret' heq => ?_) h
    obtain ⟨-, -, rfl⟩ := Call.write.inj heq
    exact of_decide_eq_true hr
  case h_6 =>
    obtain ⟨m, hm, h⟩ := Option.bind_eq_some_iff.mp h
    obtain rfl := Option.some.inj h
    obtain ⟨hheld, rfl⟩ := Mutex.unlock_eq_some.mp hm
    exact .unlock hheld
  case h_7 fd => exact effect_of_fileCall rfl nofun nofun (fun _ _ => nofun) h
  case h_8 fd bytes => exact effect_of_fileCall rfl nofun nofun (fun _ _ => nofun) h
  case h_9 fd =>
    split at h
    · next hsocket =>
      obtain rfl := Option.some.inj h
      exact .closeSocket hsocket
    · next hsocket =>
      obtain ⟨r, d, hstep, -, rfl⟩ := DeviceState.driverCall_eq_some.mp h
      exact .driver rfl (Bool.not_eq_true _ ▸ hsocket) hstep nofun
  case h_10 hopenWrite hopenRead hioctl hlock hwrite hunlock hreadFailed hread hclose =>
    obtain rfl := Option.some.inj h
    refine .other (fun op hop => ?_) hlock hunlock
    unfold opOf at hop
    split at hop
    · exact absurd rfl (hopenWrite _)
    · exact absurd rfl (hopenRead _)
    · exact absurd rfl (hioctl _ _ _)
    · exact absurd rfl (hwrite _ _ _)
    · next fd bytes =>
      cases bytes with
      | none => exact absurd rfl (hreadFailed fd)
      | some bytes => exact absurd rfl (hread fd bytes)
    · exact absurd rfl (hclose _)
    · exact nomatch hop

theorem deviceCall_inv {call : Call} (hinv : s.driver.Inv K)
    (h : deviceCall K i s out call = some s') : s'.driver.Inv K := by
  cases effect_of_deviceCall h with
  | driver _ _ hstep _ => exact (hinv.effect hstep).1
  | closeSocket _ => exact hinv
  | lock _ => exact hinv
  | unlock _ => exact hinv
  | other _ _ _ => exact hinv

/-- A call that writes all it is to write adds that to the stream that the device holds. -/
theorem holds_of_deviceCall {call : Call} {stream : List UInt8} (hinv : s.driver.Inv K)
    (hholds : s.driver.Holds stream) (hall : WritesAll call)
    (h : deviceCall K i s out call = some s') : s'.driver.Holds (stream ++ toDevice s call) := by
  cases effect_of_deviceCall h with
  | @driver _ op r d hop hsocket hstep hret =>
    rw [← written_eq_toDevice hop hsocket]
    refine hholds.step hinv hstep fun fd data w heq => ?_
    obtain rfl : op = .write fd data w := heq
    obtain ⟨ret, rfl⟩ := exists_write_of_opOf hop
    exact (hret fd data ret rfl).trans (hall fd data ret rfl)
  | closeSocket _ =>
    rw [show toDevice s _ = [] from rfl, List.append_nil]
    exact hholds
  | lock _ =>
    rw [show toDevice s _ = [] from rfl, List.append_nil]
    exact hholds
  | unlock _ =>
    rw [show toDevice s _ = [] from rfl, List.append_nil]
    exact hholds
  | other hsocket _ _ =>
    rw [toDevice_eq_nil hsocket, List.append_nil]
    exact hholds

/-- Any call but a write leaves what is stored and what is pending. -/
theorem deviceCall_kept {call : Call} (hinv : s.driver.Inv K)
    (hno : ∀ fd bytes ret, call ≠ .write fd bytes ret)
    (h : deviceCall K i s out call = some s') :
    s'.driver.commands = s.driver.commands ∧ s'.driver.pending = s.driver.pending := by
  cases effect_of_deviceCall h with
  | @driver _ op r d hop hsocket hstep hret =>
    have hop' : ∀ fd data w, op ≠ .write fd data w := by
      rintro fd data w rfl
      obtain ⟨ret, rfl⟩ := exists_write_of_opOf hop
      exact hno fd data ret rfl
    obtain ⟨-, heff⟩ := hinv.effect hstep
    cases heff with
    | stored _ _ => exact absurd rfl (hop' _ _ _)
    | failed _ _ _ => exact absurd rfl (hop' _ _ _)
    | rejected _ _ => exact ⟨rfl, rfl⟩
    | kept _ hheap hdev => simp only [Driver.commands, Driver.pending, hheap, hdev, and_self]
  | closeSocket _ => exact ⟨rfl, rfl⟩
  | lock _ => exact ⟨rfl, rfl⟩
  | unlock _ => exact ⟨rfl, rfl⟩
  | other _ _ _ => exact ⟨rfl, rfl⟩

/-- Only the calls for it change the mutex. -/
theorem deviceCall_mutex {call : Call} (hlock : call ≠ .lock) (hunlock : call ≠ .unlock)
    (h : deviceCall K i s out call = some s') : s'.gWriteMutex = s.gWriteMutex := by
  cases effect_of_deviceCall h with
  | driver _ _ _ _ => rfl
  | closeSocket _ => rfl
  | lock _ => exact absurd rfl hlock
  | unlock _ => exact absurd rfl hunlock
  | other _ _ _ => rfl

/-- A call leaves the files and sockets of other descriptors as they are. -/
theorem deviceCall_of_ne {call : Call} {fd : Nat} (hne : call.fd? ≠ some fd)
    (h : deviceCall K i s out call = some s') :
    s'.driver.files fd = s.driver.files fd ∧ s'.sockets fd = s.sockets fd := by
  cases effect_of_deviceCall h with
  | @driver _ op r d hop hsocket hstep hret =>
    refine ⟨Driver.step_files_of_ne hstep ?_, rfl⟩
    rintro rfl
    exact hne (fd?_eq_of_opOf hop)
  | @closeSocket fd' _ =>
    refine ⟨rfl, Function.update_of_ne ?_ _ _⟩
    rintro rfl
    exact hne rfl
  | lock _ => exact ⟨rfl, rfl⟩
  | unlock _ => exact ⟨rfl, rfl⟩
  | other _ _ _ => exact ⟨rfl, rfl⟩

/-! ### The calls on a file of the device -/

/-- A file is opened under a free number, at its start. -/
theorem deviceCall_open {call : Call} {fd : Nat}
    (hcall : call = .openWrite (some fd) ∨ call = .openRead (some fd)) :
    deviceCall K i s out call = some s' ↔
      s.Free fd = true ∧ s' = { s with driver := s.driver.setPos fd 0 } := by
  have hopen : s.Free fd = true →
      (s.driverCall K (.open fd) (fun r => r.val = fd) = some s' ↔
        s' = { s with driver := s.driver.setPos fd 0 }) := by
    intro hfree
    have hnone : s.driver.files fd = none := by
      simp only [DeviceState.Free, Bool.and_eq_true, Option.isNone_iff_eq_none] at hfree
      exact hfree.2
    simp [DeviceState.driverCall_eq_some, Driver.step, hnone]
  rcases hcall with rfl | rfl <;>
    exact Option.ite_none_right_eq_some.trans (and_congr_right hopen)

/-- A write that returns its count stores the lines that it completes. -/
theorem deviceCall_write {fd : Nat} {bytes : List UInt8} {ret : Int} (hinv : s.driver.Inv K)
    (hsocket : s.sockets fd = false) (hret : ret = bytes.length)
    (h : deviceCall K i s out (.write fd bytes ret) = some s') :
    s'.driver.commands =
        (s.driver.commands ++ commandLines (s.driver.pending ++ bytes)).rtake 10 ∧
      s'.driver.pending = commandRest (s.driver.pending ++ bytes) := by
  rcases DeviceState.fileCall_eq_some.mp h with ⟨hsocket', -⟩ | ⟨-, h⟩
  · rw [hsocket] at hsocket'
    exact nomatch hsocket'
  · obtain ⟨r, d, hstep, hanswer, rfl⟩ := DeviceState.driverCall_eq_some.mp h
    have hr : r.val = ret := of_decide_eq_true hanswer
    exact hinv.write_stored hstep (by rw [hr, hret]; omega)

variable (i) in
/-- A write is possible when the kernel has memory for all that is then pending. -/
theorem exists_deviceCall_write {fd : Nat} {p : Int} {bytes : List UInt8} (hinv : s.driver.Inv K)
    (hsocket : s.sockets fd = false) (hpos : s.driver.files fd = some p)
    (hfits : s.driver.pending.length + bytes.length ≤ K.kmallocMaxSize) :
    ∃ s', deviceCall K i s .ok (.write fd bytes bytes.length) = some s' := by
  have hmax := K.kmallocMaxSize_lt
  have htakes : s.driver.TakesWrite fd bytes := ⟨by rw [hpos]; rfl, by omega⟩
  obtain ⟨d', hstep⟩ : ∃ d', s.driver.step K (.write fd bytes .ok) = some (⟨bytes.length, []⟩, d') :=
    hinv.write_granted htakes (.inr ⟨rfl, hfits⟩) rfl fun _ => rfl
  exact ⟨_, (DeviceState.fileCall_of_not_socket hsocket hstep).mpr ⟨by simp, rfl⟩⟩

variable (i out) in
/-- Closing a descriptor is always possible. -/
theorem exists_deviceCall_close (hinv : s.driver.Inv K) (fd : Option Nat) :
    ∃ s', deviceCall K i s out (.close fd) = some s' := by
  cases fd with
  | none => exact ⟨s, rfl⟩
  | some fd =>
    rw [deviceCall]
    split
    · exact ⟨_, rfl⟩
    · obtain ⟨r, d, hstep, -⟩ := hinv.step_total (.release fd)
      exact ⟨_, DeviceState.driverCall_eq_some.mpr ⟨r, d, hstep, rfl, rfl⟩⟩

/-- A read at position `p` delivers the bytes that follow there, and none only at the end. -/
theorem read_copied {d : Driver} (hinv : d.Inv K) {fd p count : Nat}
    (hpos : d.files fd = some (p : Int)) (hp : p < 2 ^ 63) (hcount : 0 < count) :
    ∃ b : List UInt8, b = (d.contents.drop p).take b.length ∧ b.length ≤ count ∧
      (b = [] ↔ d.contents.length ≤ p) ∧
      d.step K (.read fd count true) =
        some (⟨b.length, b⟩, d.setPos fd ((p + b.length : Nat) : Int)) := by
  have hread := hinv.read_step hp fd count
  rw [Driver.setPos_of_files_eq hpos] at hread
  rcases hread with ⟨hend, hread⟩ | ⟨hlt, n, hle, hpos', hpn, hread, -⟩
  · refine ⟨[], rfl, Nat.zero_le _, iff_of_true rfl hend, ?_⟩
    rw [hread true]
    exact congrArg (fun d => some (_, d)) (Driver.setPos_of_files_eq hpos).symm
  · have hlen : ((d.contents.drop p).take n).length = n := by
      rw [List.length_take, List.length_drop]
      omega
    refine ⟨(d.contents.drop p).take n, by rw [hlen], by omega, ?_, by rw [hlen, hread]⟩
    refine iff_of_false ?_ (by omega)
    rw [← List.length_eq_zero_iff, hlen]
    exact (hpos' hcount).ne'

variable (i) in
theorem deviceCall_read {fd p : Nat} (hinv : s.driver.Inv K) (hsocket : s.sockets fd = false)
    (hpos : s.driver.files fd = some (p : Int)) (hp : p < 2 ^ 63) (hcopied : out.copied = true) :
    ∃ b : List UInt8, b = (s.driver.contents.drop p).take b.length ∧
      b.length ≤ initialBufferSize ∧ (b = [] ↔ s.driver.contents.length ≤ p) ∧
      ∀ bytes s', deviceCall K i s out (.read fd bytes) = some s' ↔
        bytes = some b ∧
          s' = { s with driver := s.driver.setPos fd ((p + b.length : Nat) : Int) } := by
  obtain ⟨b, hb, hlen, hend, hread⟩ :=
    read_copied hinv hpos hp (show 0 < initialBufferSize by decide)
  refine ⟨b, hb, hlen, hend, fun bytes s' => ?_⟩
  rw [← hcopied] at hread
  cases bytes with
  | none =>
    rw [deviceCall, DeviceState.fileCall_of_not_socket hsocket hread]
    simp
  | some bytes =>
    rw [deviceCall, DeviceState.fileCall_of_not_socket hsocket hread]
    simp [eq_comm]

/-- A seek request moves the file to the byte that it names, and fails if there is none. -/
theorem deviceCall_ioctl {fd : Nat} {p : Int} {x y : UInt32} {ok : Bool} (hinv : s.driver.Inv K)
    (hsocket : s.sockets fd = false) (hpos : s.driver.files fd = some p)
    (hcopied : out.copied = true) :
    deviceCall K i s out (.ioctl fd ⟨x, y⟩ ok) = some s' ↔
      if y.toNat < (s.driver.commands.getD x.toNat []).length then
        ok = true ∧
          s' = { s with driver := s.driver.setPos fd (s.driver.offsetOf x.toNat y.toNat : Nat) }
      else ok = false ∧ s' = s := by
  have hio := hinv.ioctl_step hpos ⟨x, y⟩
  rw [← hcopied] at hio
  rw [deviceCall]
  split at hio
  · next hnames =>
    rw [DeviceState.fileCall_of_not_socket hsocket hio, if_pos hnames]
    simp
  · next hnames =>
    rw [DeviceState.fileCall_of_not_socket hsocket hio, if_neg hnames]
    simp

/-- What a read returns that returns bytes, with the copy to the user granted or not. -/
theorem deviceCall_read_some {fd p : Nat} {bytes : List UInt8} (hinv : s.driver.Inv K)
    (hsocket : s.sockets fd = false) (hpos : s.driver.files fd = some (p : Int)) (hp : p < 2 ^ 63)
    (h : deviceCall K i s out (.read fd (some bytes)) = some s') :
    bytes = (s.driver.contents.drop p).take bytes.length ∧
      (bytes = [] ↔ s.driver.contents.length ≤ p) ∧
      s' = { s with driver := s.driver.setPos fd ((p + bytes.length : Nat) : Int) } := by
  by_cases hcopied : out.copied = true
  · obtain ⟨b, hb, -, hend, hread⟩ := deviceCall_read i hinv hsocket hpos hp hcopied
    obtain ⟨hbytes, rfl⟩ := (hread _ _).mp h
    obtain rfl := Option.some.inj hbytes
    exact ⟨hb, hend, rfl⟩
  · have hread := hinv.read_step hp fd initialBufferSize
    rw [Driver.setPos_of_files_eq hpos] at hread
    rw [Bool.not_eq_true] at hcopied
    rw [deviceCall] at h
    rcases hread with ⟨hend, hread⟩ | ⟨-, n, -, -, -, -, hread⟩
    · rw [DeviceState.fileCall_of_not_socket hsocket (hread _)] at h
      obtain ⟨hanswer, rfl⟩ := h
      obtain rfl : bytes = [] := by simpa [eq_comm] using hanswer
      refine ⟨rfl, iff_of_true rfl hend, ?_⟩
      rw [List.length_nil, Nat.add_zero, Driver.setPos_of_files_eq hpos]
    · rw [← hcopied] at hread
      rw [DeviceState.fileCall_of_not_socket hsocket hread] at h
      simp at h

/-- A seek request that succeeds names a byte, to which the file is moved. -/
theorem deviceCall_ioctl_true {fd : Nat} {p : Int} {seekto : AesdSeekto} (hinv : s.driver.Inv K)
    (hsocket : s.sockets fd = false) (hpos : s.driver.files fd = some p)
    (h : deviceCall K i s out (.ioctl fd seekto true) = some s') :
    seekto.writeCmdOffset.toNat < (s.driver.commands.getD seekto.writeCmd.toNat []).length ∧
      s' = { s with
        driver := s.driver.setPos fd
          (s.driver.offsetOf seekto.writeCmd.toNat seekto.writeCmdOffset.toNat : Nat) } := by
  by_cases hcopied : out.copied = true
  · rw [deviceCall_ioctl hinv hsocket hpos hcopied] at h
    split at h
    · next hnames => exact ⟨hnames, h.2⟩
    · simp at h
  · rw [Bool.not_eq_true] at hcopied
    -- the request could not be copied from the user
    have hio : s.driver.step K (.ioctl fd aesdcharIocseekto seekto out.copied) =
        some (⟨-1, []⟩, s.driver.setPos fd p) := by
      simp only [Driver.step, hpos, hcopied, aesdIoctl]
      rfl
    rw [deviceCall, DeviceState.fileCall_of_not_socket hsocket hio] at h
    simp at h

/-! ### Runs -/

variable {es : List (Nat × DeviceCall)} {g : Threads Nat DeviceState (Option Conn)}

theorem driverInv_of_run (hrun : (lts K C).run init es = some g) : g.shared.driver.Inv K := by
  refine Lts.run_invariant (I := fun g => g.shared.driver.Inv K) (Driver.Inv.init K)
    (fun g c g' ih hstep => ?_) hrun
  obtain ⟨j, l⟩ := c
  obtain ⟨s, t, htrans, rfl⟩ := lts_step hstep
  cases htrans with
  | accept _ _ => exact ih
  | call _ _ hcall => exact deviceCall_inv ih hcall

end DeviceServer

/-- The call that a connection makes. -/
def DeviceCall.call? : DeviceCall → Option Call
  | .accept _ => none
  | .call c _ => some c

/-- The calls of connection `i`. -/
def callsOf (i : Nat) (es : List (Nat × DeviceCall)) : List Call :=
  (Lts.labelsOf i es).filterMap DeviceCall.call?

theorem callsOf_concat_self (i : Nat) (es : List (Nat × DeviceCall)) (l : DeviceCall) :
    callsOf i (es ++ [(i, l)]) = callsOf i es ++ l.call?.toList := by
  rw [callsOf, Lts.labelsOf_concat_self, List.filterMap_append, callsOf]
  cases h : l.call? <;> simp [h]

theorem callsOf_concat_of_ne {i j : Nat} (h : j ≠ i) (es : List (Nat × DeviceCall))
    (l : DeviceCall) : callsOf i (es ++ [(j, l)]) = callsOf i es := by
  rw [callsOf, Lts.labelsOf_concat_of_ne h, callsOf]

namespace DeviceServer

variable {es : List (Nat × DeviceCall)} {g : Threads Nat DeviceState (Option Conn)}

/-- What connection `i` does is a run of a connection. -/
theorem conn_of_run (hrun : (lts K C).run init es = some g) (i : Nat) :
    (g.locals i = none ∧ callsOf i es = []) ∨
      ∃ c myClient, g.locals i = some c ∧
        (Conn.lts C).run (.start myClient) (callsOf i es) = some c := by
  refine Lts.run_induction (P := fun es g => (g.locals i = none ∧ callsOf i es = []) ∨
    ∃ c myClient, g.locals i = some c ∧
      (Conn.lts C).run (.start myClient) (callsOf i es) = some c) (.inl ⟨rfl, rfl⟩)
    (fun es g c g' _ ih hstep => ?_) hrun
  obtain ⟨j, l⟩ := c
  obtain ⟨s, t, htrans, rfl⟩ := lts_step hstep
  by_cases hj : j = i
  · subst hj
    simp only [callsOf_concat_self, Function.update_self]
    cases htrans with
    | @accept myClient ht _ =>
      have hnil : callsOf j es = [] := by
        rcases ih with ⟨-, hnil⟩ | ⟨c, myClient, hc, -⟩
        · exact hnil
        · rw [ht] at hc
          exact nomatch hc
      exact .inr ⟨_, myClient, rfl, by rw [hnil]; rfl⟩
    | @call call out c c' s' ht hc _ =>
      rcases ih with ⟨hnone, -⟩ | ⟨c₀, myClient, hc₀, hrun⟩
      · rw [ht] at hnone
        exact nomatch hnone
      · obtain rfl : c₀ = c := Option.some.inj (hc₀.symm.trans ht)
        exact .inr ⟨c', myClient, rfl,
          Lts.run_concat_eq_some.mpr ⟨c₀, hrun, Conn.step_of_trans hc⟩⟩
  · simp only [callsOf_concat_of_ne hj, Function.update_of_ne (Ne.symm hj)]
    exact ih

end DeviceServer

end Aesd
