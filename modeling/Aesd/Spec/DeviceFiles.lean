import Aesd.Spec.DeviceStep

/-!
# Whose file a descriptor is

A thread uses one file of the device at a time (`Conn.file?`) and its client's socket
(`Conn.client?`). As long as no thread's last `close` of `my_file_read` hits a number that is in
use again, files and sockets of different threads have different numbers (`FilesInv`), so what one
thread does never moves the file position of another.
-/

namespace Aesd

/-- A call on a file that is open and stays so. -/
def Call.Keeps : Call → Prop
  | .ioctl .. | .write .. | .read .. => True
  | _ => False

theorem DeviceServer.deviceCall_keeps {K : Kernel} {i : Nat} {s s' : DeviceState}
    {out : DeviceOutcome} {call : Call} (hkeeps : call.Keeps)
    (h : deviceCall K i s out call = some s') :
    s'.sockets = s.sockets ∧ ∀ fd, (s.driver.files fd).isSome → (s'.driver.files fd).isSome := by
  cases effect_of_deviceCall h with
  | @driver _ op r d hop _ hstep _ =>
    refine ⟨rfl, fun fd hfd => Driver.step_files_isSome hstep ?_ hfd⟩
    rintro fd' rfl
    unfold opOf at hop
    split at hop <;> cases hop
    exact hkeeps
  | closeSocket _ => exact hkeeps.elim
  | lock _ => exact ⟨rfl, fun _ h => h⟩
  | unlock _ => exact ⟨rfl, fun _ h => h⟩
  | other _ _ _ => exact ⟨rfl, fun _ h => h⟩

namespace Conn

variable {C : Libc} {c c' : Conn} {call : Call}

/-- The file that a thread uses. -/
def file? (c : Conn) : Option Nat :=
  match c.pc with
  | .loopTop | .malloc | .recv | .realloc | .ioctl _ | .seekRead | .seekSend | .lock | .write =>
    c.gMyFileWrite
  | .readBack | .sendBack | .closeSendFailed | .closeRead => c.myFileRead
  | _ => none

/-- The socket that a thread uses. -/
def client? (c : Conn) : Option Nat := if c.pc = .returned then none else some c.myClient

@[simp] theorem file?_tail (c : Conn) : c.tail.file? = none := by
  rcases c.tail_cases with ⟨-, htail⟩ | ⟨-, htail⟩ <;> rw [htail] <;> rfl

@[simp] theorem client?_tail (c : Conn) : c.tail.client? = some c.myClient := by
  rcases c.tail_cases with ⟨-, htail⟩ | ⟨-, htail⟩ <;> rw [htail] <;> rfl

@[simp] theorem file?_freePacket (c : Conn) : c.freePacket.file? = none := file?_tail _

@[simp] theorem client?_freePacket (c : Conn) : c.freePacket.client? = some c.myClient :=
  client?_tail _

/-- What a call does to the descriptors that a thread uses. -/
inductive Uses (c c' : Conn) : Call → Prop
  | opens {call : Call} {fd : Nat} : call = .openWrite (some fd) ∨ call = .openRead (some fd) →
    c'.file? = some fd → c'.client? = c.client? → Uses c c' call
  | closesFile {fd : Nat} : c.file? = some fd → c'.file? = none → c'.client? = c.client? →
    Uses c c' (.close (some fd))
  | closesClient {fd : Nat} : c.client? = some fd → c'.file? = none → c'.client? = none →
    Uses c c' (.close (some fd))
  | closesAgain {fd : Nat} : c.pc = .closeTail → c'.file? = none → c'.client? = c.client? →
    Uses c c' (.close (some fd))
  | keeps {call : Call} : call.fd? = none ∨ call.fd? = c.file? ∧ call.Keeps →
    c'.file? = c.file? ∨ c'.file? = none → c'.client? = c.client? → Uses c c' call

theorem client?_eq (h : c.pc ≠ .returned) : c.client? = some c.myClient := if_neg h

/-- Closing `my_file_read` as long as it is open. -/
theorem Uses.closeRead {c' : Conn} (hpc : c.pc = .closeSendFailed ∨ c.pc = .closeRead)
    (hfile : c'.file? = none ∨ c.myFileRead = none ∧ c'.file? = c.file?)
    (hclient : c'.client? = c.client?) : Uses c c' (.close c.myFileRead) := by
  have hread : c.file? = c.myFileRead := by
    rcases hpc with hpc | hpc <;> simp [file?, hpc]
  cases hfd : c.myFileRead with
  | none => exact .keeps (.inl rfl) (hfile.symm.imp_left And.right) hclient
  | some fd =>
    rw [hfd] at hread hfile
    exact .closesFile hread (hfile.resolve_right fun h => nomatch h.1) hclient

theorem Trans.uses (h : Trans C c call c') : Uses c c' call := by
  cases h with
  | openWrite hpc => exact .opens (.inl rfl) rfl (by simp [client?, hpc])
  | openRead hpc => exact .opens (.inr rfl) rfl (by simp [client?, hpc])
  | closeSendFailed hpc => exact .closeRead (.inl hpc) (.inl rfl) (by simp [client?, hpc])
  | closeReadFailed hpc _ =>
    exact .closeRead (.inr hpc) (.inl (file?_tail _))
      ((client?_tail _).trans (client?_eq (by simp [hpc])).symm)
  | closeRead hpc _ =>
    exact .closeRead (.inr hpc) (.inl (file?_freePacket _))
      ((client?_freePacket _).trans (client?_eq (by simp [hpc])).symm)
  | closeTail hpc =>
    cases hfd : c.myFileRead with
    | none => exact .keeps (.inl rfl) (.inr rfl) (by simp [client?, hpc])
    | some fd => exact .closesAgain hpc rfl (by simp [client?, hpc])
  | closeClient hpc => exact .closesClient (by simp [client?, hpc]) rfl rfl
  | loop hpc =>
    refine .keeps (.inl rfl) (.inl ?_) ?_ <;>
      cases c.packetBuffer <;> simp [file?, client?, hpc]
  | @recv chunk beyond hpc _ _ =>
    rcases c.received_cases C chunk beyond with
      ⟨-, hc⟩ | ⟨-, -, hc⟩ | ⟨-, -, -, hc⟩ | ⟨seekto, -, -, -, hc⟩ <;> rw [hc] <;>
      exact .keeps (.inl rfl) (.inl (by simp [file?, hpc])) (by simp [client?, hpc])
  | exit hpc | mallocFailed hpc | reallocFailed hpc | recvEnd hpc | unlockFailed hpc
  | openReadFailed hpc =>
    exact .keeps (.inl rfl) (.inr (file?_tail _))
      ((client?_tail _).trans (client?_eq (by simp [hpc])).symm)
  | seekSendFailed hpc =>
    exact .keeps (.inl rfl) (.inr (file?_freePacket _))
      ((client?_freePacket _).trans (client?_eq (by simp [hpc])).symm)
  | ioctlFailed hpc hfd | seekReadFailed hpc hfd =>
    exact .keeps (.inr ⟨by simp [file?, hpc, hfd, Call.fd?], trivial⟩) (.inr (file?_tail _))
      ((client?_tail _).trans (client?_eq (by simp [hpc])).symm)
  | seekReadEnd hpc hfd =>
    exact .keeps (.inr ⟨by simp [file?, hpc, hfd, Call.fd?], trivial⟩) (.inr (file?_freePacket _))
      ((client?_freePacket _).trans (client?_eq (by simp [hpc])).symm)
  | ioctl hpc hfd | readBackFailed hpc hfd | readBackEnd hpc hfd =>
    exact .keeps (.inr ⟨by simp [file?, hpc, hfd, Call.fd?], trivial⟩)
      (.inl (by simp [file?, hpc])) (by simp [client?, hpc])
  | seekRead hpc hfd _ _ | readBack hpc hfd _ _ =>
    exact .keeps (.inr ⟨by simp [file?, hpc, hfd, Call.fd?], trivial⟩)
      (.inl (by simp [file?, hpc])) (by simp [client?, hpc])
  | writeFailed hpc hfd _ =>
    exact .keeps (.inr ⟨by simp [file?, hpc, hfd, Call.fd?], trivial⟩) (.inr rfl)
      (by simp [client?, hpc])
  | write hpc hfd =>
    exact .keeps (.inr ⟨by simp [file?, hpc, hfd, Call.fd?], trivial⟩) (.inr rfl)
      (by simp [client?, hpc])
  | openWriteFailed hpc | malloc hpc | realloc hpc | seekSend hpc | lock hpc | unlock hpc
  | sendBackFailed hpc | sendBack hpc | setDone hpc =>
    exact .keeps (.inl rfl) (by simp [file?, hpc]) (by simp [client?, hpc])

end Conn

namespace DeviceServer

variable {K : Kernel} {C : Libc} {i : Nat} {g g' : Threads Nat DeviceState (Option Conn)}
  {es : List (Nat × DeviceCall)}

/-- The file that thread `i` uses. -/
def fileOf (g : Threads Nat DeviceState (Option Conn)) (i : Nat) : Option Nat :=
  (g.locals i).bind Conn.file?

/-- The socket that thread `i` uses. -/
def clientOf (g : Threads Nat DeviceState (Option Conn)) (i : Nat) : Option Nat :=
  (g.locals i).bind Conn.client?

/-- What is closed at the end of `handle_connection`, where `my_file_read` can be closed already,
    is no file and no socket that a thread uses. -/
def ClosesUnused (g : Threads Nat DeviceState (Option Conn)) : Nat × DeviceCall → Prop
  | (i, .call (.close (some fd)) _) => (∃ c, g.locals i = some c ∧ c.pc = .closeTail) →
      ∀ j, fileOf g j ≠ some fd ∧ clientOf g j ≠ some fd
  | _ => True

/-- Files are open, sockets are sockets, and no two threads share one. -/
structure FilesInv (g : Threads Nat DeviceState (Option Conn)) : Prop where
  file : ∀ i fd, fileOf g i = some fd →
    g.shared.sockets fd = false ∧ (g.shared.driver.files fd).isSome
  client : ∀ i fd, clientOf g i = some fd → g.shared.sockets fd = true
  file_inj : ∀ i j fd, fileOf g i = some fd → fileOf g j = some fd → i = j
  client_inj : ∀ i j fd, clientOf g i = some fd → clientOf g j = some fd → i = j

namespace FilesInv

theorem not_free_file (h : FilesInv g) {j fd : Nat} (hj : fileOf g j = some fd) :
    g.shared.Free fd = false := by
  obtain ⟨-, hopen⟩ := h.file j fd hj
  obtain ⟨p, hp⟩ := Option.isSome_iff_exists.mp hopen
  simp [DeviceState.Free, hp]

theorem not_free_client (h : FilesInv g) {j fd : Nat} (hj : clientOf g j = some fd) :
    g.shared.Free fd = false := by
  simp [DeviceState.Free, h.client j fd hj]

/-- Descriptors stay apart when a thread gets none that was in use. -/
theorem of_step (h : FilesInv g) {s' : DeviceState} {t : Option Conn}
    (hfile : ∀ fd, t.bind Conn.file? = some fd → fileOf g i = some fd ∨ g.shared.Free fd = true)
    (hclient : ∀ fd, t.bind Conn.client? = some fd →
      clientOf g i = some fd ∨ g.shared.Free fd = true)
    (hfiles : ∀ j fd, fileOf ⟨s', Function.update g.locals i t⟩ j = some fd →
      s'.sockets fd = false ∧ (s'.driver.files fd).isSome)
    (hclients : ∀ j fd, clientOf ⟨s', Function.update g.locals i t⟩ j = some fd →
      s'.sockets fd = true) :
    FilesInv ⟨s', Function.update g.locals i t⟩ := by
  have hfile' : ∀ j fd, fileOf ⟨s', Function.update g.locals i t⟩ j = some fd →
      fileOf g j = some fd ∨ j = i ∧ g.shared.Free fd = true := by
    intro j fd hj
    by_cases hji : j = i
    · subst hji
      simp only [fileOf, Function.update_self] at hj
      exact (hfile fd hj).imp_right fun hfree => ⟨rfl, hfree⟩
    · simp only [fileOf, Function.update_of_ne hji] at hj
      exact .inl hj
  have hclient' : ∀ j fd, clientOf ⟨s', Function.update g.locals i t⟩ j = some fd →
      clientOf g j = some fd ∨ j = i ∧ g.shared.Free fd = true := by
    intro j fd hj
    by_cases hji : j = i
    · subst hji
      simp only [clientOf, Function.update_self] at hj
      exact (hclient fd hj).imp_right fun hfree => ⟨rfl, hfree⟩
    · simp only [clientOf, Function.update_of_ne hji] at hj
      exact .inl hj
  refine ⟨hfiles, hclients, fun j k fd hj hk => ?_, fun j k fd hj hk => ?_⟩
  · rcases hfile' j fd hj with hold | ⟨hji, hfree⟩
    · rcases hfile' k fd hk with hold' | ⟨-, hfree⟩
      · exact h.file_inj j k fd hold hold'
      · rw [h.not_free_file hold] at hfree
        exact nomatch hfree
    · rcases hfile' k fd hk with hold | ⟨hki, -⟩
      · rw [h.not_free_file hold] at hfree
        exact nomatch hfree
      · rw [hji, hki]
  · rcases hclient' j fd hj with hold | ⟨hji, hfree⟩
    · rcases hclient' k fd hk with hold' | ⟨-, hfree⟩
      · exact h.client_inj j k fd hold hold'
      · rw [h.not_free_client hold] at hfree
        exact nomatch hfree
    · rcases hclient' k fd hk with hold | ⟨hki, -⟩
      · rw [h.not_free_client hold] at hfree
        exact nomatch hfree
      · rw [hji, hki]

/-- What another thread uses is left alone by a call on a descriptor that it does not use. -/
theorem file_of_ne (h : FilesInv g) {call : Call} {out : DeviceOutcome} {s' : DeviceState}
    (hcall : deviceCall K i g.shared out call = some s') {j fd : Nat} (hj : fileOf g j = some fd)
    (hne : call.fd? ≠ some fd) : s'.sockets fd = false ∧ (s'.driver.files fd).isSome := by
  obtain ⟨hfiles, hsockets⟩ := deviceCall_of_ne hne hcall
  rw [hfiles, hsockets]
  exact h.file j fd hj

theorem client_of_ne (h : FilesInv g) {call : Call} {out : DeviceOutcome} {s' : DeviceState}
    (hcall : deviceCall K i g.shared out call = some s') {j fd : Nat} (hj : clientOf g j = some fd)
    (hne : call.fd? ≠ some fd) : s'.sockets fd = true := by
  obtain ⟨-, hsockets⟩ := deviceCall_of_ne hne hcall
  rw [hsockets]
  exact h.client j fd hj

theorem step (h : FilesInv g) {l : DeviceCall} (hunused : ClosesUnused g (i, l))
    (hstep : (lts K C).step g (i, l) = some g') : FilesInv g' := by
  obtain ⟨s', t, htrans, rfl⟩ := lts_step hstep
  cases htrans with
  | @accept myClient ht hfree =>
    have hne : ∀ {fd : Nat}, g.shared.Free fd = false → fd ≠ myClient := by
      rintro fd hused rfl
      exact absurd (hused.symm.trans hfree) Bool.false_ne_true
    refine h.of_step nofun (fun fd hfd => .inr ?_) (fun j fd hj => ?_) (fun j fd hj => ?_)
    · obtain rfl := Option.some.inj hfd
      exact hfree
    · by_cases hji : j = i
      · subst hji
        simp [fileOf, Conn.start, Conn.file?] at hj
      · simp only [fileOf, Function.update_of_ne hji] at hj
        simp only [Function.update_of_ne (hne (h.not_free_file hj))]
        exact h.file j fd hj
    · by_cases hji : j = i
      · subst hji
        simp only [clientOf, Function.update_self] at hj
        obtain rfl := Option.some.inj hj
        exact Function.update_self _ _ _
      · simp only [clientOf, Function.update_of_ne hji] at hj
        simp only [Function.update_of_ne (hne (h.not_free_client hj))]
        exact h.client j fd hj
  | @call call out c c' s' hc htrans hcall =>
    have hfileOf : fileOf g i = c.file? := by rw [fileOf, hc]; rfl
    have hclientOf : clientOf g i = c.client? := by rw [clientOf, hc]; rfl
    -- whose descriptors they are afterwards
    have hfiles : ∀ j, fileOf ⟨s', Function.update g.locals i (some c')⟩ j =
        if j = i then c'.file? else fileOf g j := by
      intro j
      by_cases hji : j = i <;> simp [fileOf, hji]
    have hclients : ∀ j, clientOf ⟨s', Function.update g.locals i (some c')⟩ j =
        if j = i then c'.client? else clientOf g j := by
      intro j
      by_cases hji : j = i <;> simp [clientOf, hji]
    have hshrink : (c'.file? = c.file? ∨ c'.file? = none) →
        (c'.client? = c.client? ∨ c'.client? = none) →
        (∀ j fd, (if j = i then c'.file? else fileOf g j) = some fd → call.fd? = some fd →
          s'.sockets fd = false ∧ (s'.driver.files fd).isSome) →
        (∀ j fd, (if j = i then c'.client? else clientOf g j) = some fd → call.fd? ≠ some fd) →
        FilesInv ⟨s', Function.update g.locals i (some c')⟩ := by
      intro hfile hclient hused hunused
      have hfile' : ∀ fd, c'.file? = some fd → fileOf g i = some fd := by
        intro fd hfd
        rcases hfile with hfile | hfile
        · rw [hfileOf, ← hfile, hfd]
        · rw [hfile] at hfd
          exact nomatch hfd
      have hclient' : ∀ fd, c'.client? = some fd → clientOf g i = some fd := by
        intro fd hfd
        rcases hclient with hclient | hclient
        · rw [hclientOf, ← hclient, hfd]
        · rw [hclient] at hfd
          exact nomatch hfd
      refine h.of_step (fun fd hfd => .inl (hfile' fd hfd)) (fun fd hfd => .inl (hclient' fd hfd))
        (fun j fd hj => ?_) (fun j fd hj => ?_)
      · rw [hfiles] at hj
        by_cases hfd : call.fd? = some fd
        · exact hused j fd hj hfd
        · split at hj
          · exact h.file_of_ne hcall (hfile' fd hj) hfd
          · exact h.file_of_ne hcall hj hfd
      · rw [hclients] at hj
        have hfd := hunused j fd hj
        split at hj
        · exact h.client_of_ne hcall (hclient' fd hj) hfd
        · exact h.client_of_ne hcall hj hfd
    cases htrans.uses with
    | @opens _ fd' hopen hfile hclient =>
      obtain ⟨hfree, rfl⟩ := (deviceCall_open hopen).mp hcall
      have hsocket : g.shared.sockets fd' = false := by
        simp only [DeviceState.Free, Bool.and_eq_true, Bool.not_eq_true'] at hfree
        exact hfree.1
      refine h.of_step (fun fd hfd => .inr ?_) (fun fd hfd => .inl ?_) (fun j fd hj => ?_)
        (fun j fd hj => ?_)
      · obtain rfl := Option.some.inj (hfile.symm.trans hfd)
        exact hfree
      · rw [hclientOf, ← hclient]
        exact hfd
      · rw [hfiles] at hj
        split at hj
        · obtain rfl := Option.some.inj (hfile.symm.trans hj)
          exact ⟨hsocket, by simp⟩
        · obtain ⟨hsocket', hopen'⟩ := h.file j fd hj
          by_cases hfd : fd = fd'
          · subst hfd
            exact ⟨hsocket, by simp⟩
          · exact ⟨hsocket', by rwa [Driver.files_setPos_of_ne _ _ hfd]⟩
      · rw [hclients] at hj
        split at hj
        · exact h.client i fd (by rw [hclientOf, ← hclient]; exact hj)
        · exact h.client j fd hj
    | @closesFile fd' hfile hnone hclient =>
      have hi : fileOf g i = some fd' := hfileOf.trans hfile
      refine hshrink (.inr hnone) (.inl hclient) (fun j fd hj hfd => ?_) (fun j fd hj hfd => ?_)
      · obtain rfl := Option.some.inj hfd
        split at hj
        · rw [hnone] at hj
          exact nomatch hj
        · next hji => exact absurd (h.file_inj j i _ hj hi) hji
      · obtain rfl := Option.some.inj hfd
        have hsocket : g.shared.sockets fd' = true := by
          split at hj
          · exact h.client i _ (by rw [hclientOf, ← hclient]; exact hj)
          · exact h.client j _ hj
        exact absurd ((h.file i _ hi).1.symm.trans hsocket) Bool.false_ne_true
    | @closesClient fd' hsocket hfile hnone =>
      have hi : clientOf g i = some fd' := hclientOf.trans hsocket
      refine hshrink (.inr hfile) (.inr hnone) (fun j fd hj hfd => ?_) (fun j fd hj hfd => ?_)
      · obtain rfl := Option.some.inj hfd
        split at hj
        · rw [hfile] at hj
          exact nomatch hj
        · exact absurd ((h.file j _ hj).1.symm.trans (h.client i _ hi)) Bool.false_ne_true
      · obtain rfl := Option.some.inj hfd
        split at hj
        · rw [hnone] at hj
          exact nomatch hj
        · next hji => exact hji (h.client_inj j i _ hj hi)
    | @closesAgain fd' hpc hnone hclient =>
      have hunused' := hunused ⟨c, hc, hpc⟩
      refine hshrink (.inr hnone) (.inl hclient) (fun j fd hj hfd => ?_) (fun j fd hj hfd => ?_)
      · obtain rfl := Option.some.inj hfd
        split at hj
        · rw [hnone] at hj
          exact nomatch hj
        · exact absurd hj (hunused' j).1
      · obtain rfl := Option.some.inj hfd
        split at hj
        · exact (hunused' i).2 (by rw [hclientOf, ← hclient]; exact hj)
        · exact (hunused' j).2 hj
    | keeps hfd hfile hclient =>
      refine hshrink hfile (.inl hclient) (fun j fd hj hfd' => ?_) (fun j fd hj hfd' => ?_)
      · rcases hfd with hfd | ⟨hfd, hkeeps⟩
        · rw [hfd] at hfd'
          exact nomatch hfd'
        · obtain ⟨hsockets, hopen⟩ := deviceCall_keeps hkeeps hcall
          obtain ⟨hsocket, hisSome⟩ := h.file i fd (by rw [hfileOf, ← hfd, hfd'])
          rw [hsockets]
          exact ⟨hsocket, hopen fd hisSome⟩
      · rcases hfd with hfd | ⟨hfd, hkeeps⟩
        · rw [hfd] at hfd'
          exact nomatch hfd'
        · have hsocket : g.shared.sockets fd = true := by
            split at hj
            · exact h.client i _ (by rw [hclientOf, ← hclient]; exact hj)
            · exact h.client j _ hj
          have hnot := (h.file i fd (by rw [hfileOf, ← hfd, hfd'])).1
          exact absurd (hnot.symm.trans hsocket) Bool.false_ne_true

/-- The position of a thread's file is its own to change. -/
theorem files_eq (h : FilesInv g) {j fd : Nat} {l : DeviceCall} (hunused : ClosesUnused g (j, l))
    (hstep : (lts K C).step g (j, l) = some g') (hji : j ≠ i) (hi : fileOf g i = some fd) :
    g'.shared.driver.files fd = g.shared.driver.files fd := by
  obtain ⟨s', t, htrans, rfl⟩ := lts_step hstep
  cases htrans with
  | accept _ _ => rfl
  | @call call out c c' s' hc htrans hcall =>
    refine (deviceCall_of_ne ?_ hcall).1
    cases htrans.uses with
    | @opens _ fd' hopen _ _ =>
      obtain ⟨hfree, -⟩ := (deviceCall_open hopen).mp hcall
      have hfd : call.fd? = some fd' := by rcases hopen with rfl | rfl <;> rfl
      rw [hfd]
      rintro ⟨⟩
      exact absurd ((h.not_free_file hi).symm.trans hfree) Bool.false_ne_true
    | @closesFile fd' hfile _ _ =>
      rintro ⟨⟩
      exact hji (h.file_inj j i fd (by rw [fileOf, hc]; exact hfile) hi)
    | @closesClient fd' hsocket _ _ =>
      rintro ⟨⟩
      have hclient := h.client j fd (by rw [clientOf, hc]; exact hsocket)
      exact absurd ((h.file i fd hi).1.symm.trans hclient) Bool.false_ne_true
    | @closesAgain fd' hpc _ _ =>
      rintro ⟨⟩
      exact (hunused ⟨c, hc, hpc⟩ i).1 hi
    | keeps hfd _ _ =>
      intro hfd'
      rcases hfd with hfd | ⟨hfd, -⟩
      · rw [hfd] at hfd'
        exact nomatch hfd'
      · exact hji (h.file_inj j i fd (by rw [fileOf, hc]; exact hfd.symm.trans hfd') hi)

end FilesInv

theorem filesInv_of_run (hrun : (lts K C).run init es = some g)
    (hunused : (lts K C).Along ClosesUnused init es) : FilesInv g := by
  refine Lts.run_induction (P := fun es g => (lts K C).Along ClosesUnused init es → FilesInv g)
    (fun _ => ?_) (fun es g c g' hes ih hstep hunused => ?_) hrun hunused
  · exact ⟨by simp [fileOf, init], by simp [clientOf, init], by simp [fileOf, init],
      by simp [clientOf, init]⟩
  · obtain ⟨hbefore, hlast⟩ := Lts.along_concat.mp hunused
    exact (ih hbefore).step (hlast g hes) hstep

/-- Threads that close nothing close nothing that is in use. -/
theorem along_closesUnused (hno : ∀ c ∈ es, ∀ fd out, c.2 ≠ .call (.close (some fd)) out) :
    (lts K C).Along ClosesUnused init es := by
  rintro pre ⟨i, l⟩ post g rfl -
  have hclose := hno (i, l) (by simp)
  unfold ClosesUnused
  split
  · next heq =>
    obtain ⟨rfl, rfl⟩ := Prod.mk.inj heq
    exact absurd rfl (hclose _ _)
  · trivial

end DeviceServer

end Aesd
