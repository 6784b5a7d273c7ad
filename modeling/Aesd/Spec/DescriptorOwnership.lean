import Aesd.Spec.Registry

/-!
# Who closes a descriptor

A descriptor is obtained for one connection, by `accept` or by an `open` of its thread. Closing
it is right as long as it is open for that connection; a second close hits nothing, or what
somebody else has been given. The code goes wrong in four places: the descriptor in the
parameter `g_my_file_write` is never closed, the end of `handle_connection` closes
`my_file_read` once more after the loop of `read` has, a refused `pthread_create` leaves the
client open, and the sweep at the end closes clients that their threads have closed.
`Server.descriptors_owned_iff` says that nothing else does.
-/

namespace Aesd

/-- The descriptor of `my_file_read` is open. -/
def Pc.reading : Pc → Bool
  | .readBack | .sendBack | .closeSendFailed | .closeRead => true
  | _ => false

namespace Conn

variable {C : Libc} {c c' : Conn} {call : Call}

/-- The descriptors that a connection has open. -/
def openFds (c : Conn) : List Nat :=
  (if c.pc = .returned then [] else [c.myClient]) ++
    (c.gMyFileWrite.toList ++ if c.pc.reading then c.myFileRead.toList else [])

/-- The descriptors that a connection remembers are different ones. -/
structure FdShape (c : Conn) : Prop where
  nodup : (c.myClient :: (c.gMyFileWrite.toList ++ c.myFileRead.toList)).Nodup
  atStart : c.pc = .openWrite → c.gMyFileWrite = none ∧ c.myFileRead = none
  isOpen : c.pc = .readBack ∨ c.pc = .sendBack ∨ c.pc = .closeSendFailed ∨ c.pc = .closeTail →
    c.myFileRead.isSome

theorem openFds_of_pc {pc : Pc} (hpc : c.pc = pc) (hreturned : pc ≠ .returned)
    (hreading : pc.reading = false) : c.openFds = c.myClient :: c.gMyFileWrite.toList := by
  simp [openFds, hpc, hreturned, hreading]

@[simp] theorem openFds_tail (c : Conn) : c.tail.openFds = c.myClient :: c.gMyFileWrite.toList := by
  rcases c.tail_cases with ⟨-, htail⟩ | ⟨-, htail⟩ <;> rw [htail] <;> simp [openFds, Pc.reading]

@[simp] theorem openFds_freePacket (c : Conn) :
    c.freePacket.openFds = c.myClient :: c.gMyFileWrite.toList :=
  openFds_tail _

@[simp] theorem openFds_received (c : Conn) (chunk beyond : List UInt8) :
    (c.received C chunk beyond).openFds = c.myClient :: c.gMyFileWrite.toList := by
  rcases c.received_cases C chunk beyond with
    ⟨-, hc⟩ | ⟨-, -, hc⟩ | ⟨-, -, -, hc⟩ | ⟨seekto, -, -, -, hc⟩ <;> rw [hc] <;>
    simp [openFds, Pc.reading]

theorem FdShape.tail (h : c.FdShape) : c.tail.FdShape := by
  rcases c.tail_cases with ⟨hsome, htail⟩ | ⟨-, htail⟩ <;> rw [htail]
  · exact ⟨h.nodup, nofun, fun _ => hsome⟩
  · exact ⟨h.nodup, nofun, fun hpc => by simp at hpc⟩

theorem FdShape.freePacket (h : c.FdShape) : c.freePacket.FdShape :=
  FdShape.tail (c := { c with packetBuffer := none, packet := [] }) ⟨h.nodup, h.atStart, h.isOpen⟩

/-- A descriptor that is not open may be taken for another one. -/
theorem nodup_concat_fd {l : List Nat} {fd : Nat} (h : l.Nodup) (hfd : fd ∉ l) :
    (l ++ [fd]).Nodup := by
  rw [List.nodup_append_comm]
  exact List.nodup_cons.mpr ⟨hfd, h⟩

/-- A connection that gets descriptors it has not open keeps them apart. -/
theorem FdShape.step (h : c.FdShape) (htrans : Trans C c call c')
    (hfresh : ∀ fd, call = .openWrite (some fd) ∨ call = .openRead (some fd) → fd ∉ c.openFds) :
    c'.FdShape := by
  cases htrans with
  | @openWrite fd hpc =>
    obtain ⟨hwrite, hread⟩ := h.atStart hpc
    have hne := hfresh fd (.inl rfl)
    rw [openFds_of_pc hpc nofun rfl, hwrite] at hne
    refine ⟨?_, nofun, fun hpc => by simp at hpc⟩
    simp only [hread]
    exact nodup_concat_fd (l := [c.myClient]) (by simp) hne
  | @openRead fd hpc =>
    have hne := hfresh fd (.inr rfl)
    rw [openFds_of_pc hpc nofun rfl] at hne
    refine ⟨?_, nofun, fun _ => rfl⟩
    exact nodup_concat_fd (h.nodup.sublist (by simp)) hne
  | closeSendFailed hpc =>
    exact ⟨h.nodup.sublist (by simp), nofun, fun hpc => by simp at hpc⟩
  | loop hpc =>
    refine ⟨h.nodup, ?_, ?_⟩ <;> cases c.packetBuffer <;> simp
  | recv hpc _ _ =>
    refine ⟨h.nodup, ?_, ?_⟩ <;> rcases c.received_cases C _ _ with
      ⟨-, hc⟩ | ⟨-, -, hc⟩ | ⟨-, -, -, hc⟩ | ⟨seekto, -, -, -, hc⟩ <;> rw [hc] <;> simp
  | readBack hpc _ _ _ => exact ⟨h.nodup, nofun, fun _ => h.isOpen (.inl hpc)⟩
  | sendBack hpc => exact ⟨h.nodup, nofun, fun _ => h.isOpen (.inr (.inl hpc))⟩
  | sendBackFailed hpc => exact ⟨h.nodup, nofun, fun _ => h.isOpen (.inr (.inl hpc))⟩
  | _ => first
    | exact h.tail
    | exact h.freePacket
    | exact ⟨h.nodup, nofun, fun hpc => by simp at hpc⟩

/-- While `my_file_read` is open, it is open besides the other two. -/
theorem FdShape.reading (h : c.FdShape) {fd : Nat} (hpc : c.pc.reading = true)
    (hfd : c.myFileRead = some fd) :
    fd ∈ c.openFds ∧ ∀ x, x ∈ c.myClient :: c.gMyFileWrite.toList ↔ x ∈ c.openFds ∧ x ≠ fd := by
  have hreturned : c.pc ≠ .returned := by
    intro hreturned
    rw [hreturned] at hpc
    exact nomatch hpc
  have hfds : c.openFds = (c.myClient :: c.gMyFileWrite.toList) ++ [fd] := by
    simp [openFds, hreturned, hpc, hfd]
  have hnodup := h.nodup
  rw [hfd, Option.toList_some, ← List.cons_append, List.nodup_append_comm,
    List.singleton_append, List.nodup_cons] at hnodup
  rw [hfds]
  refine ⟨by simp, fun x => ?_⟩
  rw [List.mem_append, List.mem_singleton]
  constructor
  · intro hx
    refine ⟨.inl hx, ?_⟩
    rintro rfl
    exact hnodup.1 hx
  · rintro ⟨hx, hne⟩
    exact hx.resolve_right hne

/-- What a call does to the open descriptors. -/
theorem mem_openFds_step (h : c.FdShape) (htrans : Trans C c call c') :
    (∃ fd, (call = .openWrite (some fd) ∨ call = .openRead (some fd)) ∧
      ∀ x, x ∈ c'.openFds ↔ x = fd ∨ x ∈ c.openFds) ∨
    (∃ fd, call = .close (some fd) ∧ c.pc ≠ .closeTail ∧ fd ∈ c.openFds ∧
      ∀ x, x ∈ c'.openFds ↔ x ∈ c.openFds ∧ x ≠ fd) ∨
    (∃ fd, call = .close (some fd) ∧ c.pc = .closeTail ∧ fd ∉ c.openFds) ∨
    (∀ fd, call ≠ .openWrite (some fd) ∧ call ≠ .openRead (some fd) ∧ call ≠ .close (some fd)) ∧
      c'.openFds = c.openFds := by
  cases htrans with
  | @openWrite fd hpc =>
    obtain ⟨hwrite, hread⟩ := h.atStart hpc
    refine .inl ⟨fd, .inl rfl, fun x => ?_⟩
    simp [openFds, hpc, hwrite, Pc.reading, or_comm]
  | @openRead fd hpc =>
    refine .inl ⟨fd, .inr rfl, fun x => ?_⟩
    simp [openFds, hpc, Pc.reading, or_comm, or_left_comm]
  | closeSendFailed hpc =>
    obtain ⟨fd, hfd⟩ := Option.isSome_iff_exists.mp (h.isOpen (.inr (.inr (.inl hpc))))
    obtain ⟨hmem, hfds⟩ := h.reading (by rw [hpc]; rfl) hfd
    refine .inr (.inl ⟨fd, by rw [hfd], by rw [hpc]; nofun, hmem, fun x => ?_⟩)
    rw [← hfds]
    simp [openFds]
  | closeRead hpc _ =>
    cases hfd : c.myFileRead with
    | none =>
      refine .inr (.inr (.inr ⟨fun _ => ⟨nofun, nofun, nofun⟩, ?_⟩))
      rw [openFds_freePacket]
      simp [openFds, hpc, hfd]
    | some fd =>
      obtain ⟨hmem, hfds⟩ := h.reading (by rw [hpc]; rfl) hfd
      refine .inr (.inl ⟨fd, rfl, by rw [hpc]; nofun, hmem, fun x => ?_⟩)
      rw [← hfds, openFds_freePacket]
  | closeReadFailed hpc _ =>
    cases hfd : c.myFileRead with
    | none =>
      refine .inr (.inr (.inr ⟨fun _ => ⟨nofun, nofun, nofun⟩, ?_⟩))
      rw [openFds_tail]
      simp [openFds, hpc, hfd]
    | some fd =>
      obtain ⟨hmem, hfds⟩ := h.reading (by rw [hpc]; rfl) hfd
      refine .inr (.inl ⟨fd, rfl, by rw [hpc]; nofun, hmem, fun x => ?_⟩)
      rw [← hfds, openFds_tail]
  | closeTail hpc =>
    obtain ⟨fd, hfd⟩ := Option.isSome_iff_exists.mp (h.isOpen (.inr (.inr (.inr hpc))))
    have hnodup := h.nodup
    rw [hfd, Option.toList_some, ← List.cons_append, List.nodup_append_comm,
      List.singleton_append, List.nodup_cons] at hnodup
    refine .inr (.inr (.inl ⟨fd, by rw [hfd], hpc, ?_⟩))
    rw [openFds_of_pc hpc nofun rfl]
    exact hnodup.1
  | closeClient hpc =>
    have hnodup := List.nodup_cons.mp (h.nodup.sublist (List.sublist_append_left
      (c.myClient :: c.gMyFileWrite.toList) c.myFileRead.toList))
    refine .inr (.inl ⟨c.myClient, rfl, by rw [hpc]; nofun, ?_, fun x => ?_⟩)
    · simp [openFds, hpc]
    · rw [openFds_of_pc hpc nofun rfl, List.mem_cons]
      simp only [openFds, if_true, Pc.reading, List.nil_append]
      constructor
      · intro hx
        have hx : x ∈ c.gMyFileWrite.toList := by simpa using hx
        refine ⟨.inr hx, ?_⟩
        rintro rfl
        exact hnodup.1 hx
      · rintro ⟨hx, hne⟩
        simpa using hx.resolve_left hne
  | loop hpc =>
    refine .inr (.inr (.inr ⟨fun _ => ⟨nofun, nofun, nofun⟩, ?_⟩))
    cases hbuffer : c.packetBuffer <;> simp [openFds, hpc, Pc.reading]
  | recv hpc _ _ =>
    refine .inr (.inr (.inr ⟨fun _ => ⟨nofun, nofun, nofun⟩, ?_⟩))
    rw [openFds_received, openFds_of_pc hpc nofun rfl]
  | _ =>
    refine .inr (.inr (.inr ⟨fun _ => ⟨nofun, nofun, nofun⟩, ?_⟩))
    first
    | simp [openFds, Pc.reading, *]; done
    | rw [openFds_tail]; simp [openFds, Pc.reading, *]
    | rw [openFds_freePacket]; simp [openFds, Pc.reading, *]

end Conn

/-- The entry whose client is accepted and whose thread is not created. -/
def MainPc.accepted? : MainPc → Option Nat
  | .insert n | .create n => some n
  | _ => none

namespace Server

variable {C : Libc} {s s' : Server} {call : MainCall} {n : Nat}

/-- `my_client` of an entry. -/
def client (s : Server) (n : Nat) : Option Nat := (s.entries n).bind ThreadEntry.myClient

/-- The descriptors that are open for connection `n`. -/
def owned (s : Server) (n : Nat) : List Nat :=
  match s.threads n with
  | .none => if s.pc.accepted? = some n then (s.client n).toList else []
  | .created => (s.client n).toList
  | .running c => c.openFds
  | .failed | .joined => []

/-- The call closes no descriptor, or one that is open for the connection it is closed for. -/
def ClosesOwn (s : Server) : MainCall → Prop
  | .thread n (.close (some fd)) | .close n fd => s.fds fd = some n
  | _ => True

/-- No descriptor is open for a connection whose thread is joined or was refused. -/
def NoneLeft (s : Server) : Prop :=
  ∀ n fd, s.threads n = .joined ∨ s.threads n = .failed → s.fds fd ≠ some n

/-- What goes wrong: a thread is refused, one is joined that has opened the device for writing,
    one closes `my_file_read` after its loop of `read` has, and the sweep at the end closes a
    client. -/
def Misses (s : Server) : MainCall → Prop
  | .create _ threadId => threadId = none
  | .join n => ∃ c, s.threads n = .running c ∧ c.gMyFileWrite ≠ none
  | .thread n (.close _) => ∃ c, s.threads n = .running c ∧ c.pc = .closeTail
  | .close _ _ => True
  | _ => False

/-- The table says of each open descriptor for which connection it is open. -/
structure FdInv (s : Server) : Prop where
  table : ∀ fd n, s.fds fd = some n ↔ fd ∈ s.owned n
  shape : ∀ n c, s.threads n = .running c → c.FdShape
  notFailed : ∀ n, s.threads n ≠ .failed
  accepted : ∀ n, s.pc.accepted? = some n → (s.client n).isSome

theorem fdInv_init : init.FdInv :=
  ⟨fun fd n => by simp [init, owned, MainPc.accepted?], nofun, nofun, nofun⟩

theorem FdInv.noneLeft (h : s.FdInv) : s.NoneLeft := by
  intro n fd hn
  rw [ne_eq, h.table, owned]
  rcases hn with hn | hn <;> simp [hn]

/-! ### Steps -/

@[simp] theorem accepted_sweepFrom (temp : Option Nat) : (sweepFrom temp).accepted? = none := by
  cases temp <;> rfl

@[simp] theorem accepted_shutdownFrom (temp : Option Nat) :
    (shutdownFrom temp).accepted? = none := by
  cases temp <;> rfl

@[simp] theorem accepted_closeFrom (e : ThreadEntry) (n : Nat) (temp : Option Nat) :
    (closeFrom e n temp).accepted? = none := by
  unfold closeFrom
  split <;> rfl

@[simp] theorem accepted_joinFrom (e : ThreadEntry) (n : Nat) (temp : Option Nat) :
    (joinFrom e n temp).accepted? = none := by
  unfold joinFrom
  split
  · rfl
  · exact accepted_closeFrom e n temp

/-- A step that opens and closes nothing and leaves each connection what is open for it. -/
theorem FdInv.of_same (h : s.FdInv) (hfds : s'.fds = s.fds) (howned : ∀ n, s'.owned n = s.owned n)
    (hthreads : ∀ n, s'.threads n ≠ .failed ∧
      ∀ c, s'.threads n = .running c → c.FdShape)
    (hclient : ∀ n, s'.pc.accepted? = some n → (s'.client n).isSome) : s'.FdInv :=
  ⟨fun fd n => by rw [hfds, howned, h.table], fun n c hc => (hthreads n).2 c hc,
    fun n => (hthreads n).1, hclient⟩

/-- A step of the main thread alone. -/
theorem FdInv.of_main (h : s.FdInv) (hfds : s'.fds = s.fds) (hthreads : s'.threads = s.threads)
    (haccepted : s'.pc.accepted? = s.pc.accepted?)
    (hclient : ∀ n, s'.client n = s.client n ∨
      (s.threads n ≠ .created ∧ s.pc.accepted? ≠ some n)) : s'.FdInv := by
  refine h.of_same hfds (fun n => ?_) (fun n => ?_) fun n hn => ?_
  · rcases hclient n with hsame | ⟨hcreated, hno⟩
    · rw [owned, owned, hthreads, haccepted, hsame]
    · rw [owned, owned, hthreads, haccepted, if_neg hno, if_neg hno]
      cases hn : s.threads n with
      | created => exact absurd hn hcreated
      | _ => rfl
  · rw [hthreads]
    exact ⟨h.notFailed n, h.shape n⟩
  · rw [haccepted] at hn
    rw [(hclient n).resolve_right fun hno => hno.2 hn]
    exact h.accepted n hn

/-- Freeing the entry of a thread that is over, or that never was. -/
theorem FdInv.free (h : s.FdInv) {pc : MainPc} (hn : (s.threads n).active = false)
    (hpc : s.pc.accepted? = none) (hpc' : pc.accepted? = none) :
    FdInv { s.setEntry n none with pc := pc } := by
  refine h.of_main rfl rfl (by rw [hpc]; exact hpc') fun m => ?_
  by_cases hm : m = n
  · subst hm
    refine .inr ⟨?_, by rw [hpc]; nofun⟩
    intro hcreated
    rw [hcreated] at hn
    exact nomatch hn
  · exact .inl (by simp [client, hm])

/-- What a thread's call does to the table. -/
theorem threadEffect_fds {call : Call} (h : threadEffect s n call = some s') :
    (∃ fd, (call = .openWrite (some fd) ∨ call = .openRead (some fd)) ∧ s.fds fd = none ∧
      s'.fds = Function.update s.fds fd (some n)) ∨
    (∃ fd, call = .close (some fd) ∧ s'.fds = Function.update s.fds fd none) ∨
    (∀ fd, call ≠ .openWrite (some fd) ∧ call ≠ .openRead (some fd) ∧ call ≠ .close (some fd)) ∧
      s'.fds = s.fds := by
  unfold threadEffect at h
  split at h
  case h_1 fd =>
    obtain ⟨hfd, h⟩ := Option.ite_none_right_eq_some.mp h
    obtain rfl := Option.some.inj h
    exact .inl ⟨fd, .inl rfl, hfd, rfl⟩
  case h_2 fd =>
    obtain ⟨hfd, h⟩ := Option.ite_none_right_eq_some.mp h
    obtain rfl := Option.some.inj h
    exact .inl ⟨fd, .inr rfl, hfd, rfl⟩
  case h_3 =>
    obtain rfl := Option.some.inj h
    exact .inr (.inr ⟨fun _ => ⟨nofun, nofun, nofun⟩, rfl⟩)
  case h_4 fd =>
    obtain rfl := Option.some.inj h
    exact .inr (.inl ⟨fd, rfl, rfl⟩)
  case h_5 hwrite hread _ hclose =>
    obtain rfl := Option.some.inj h
    refine .inr (.inr ⟨fun fd => ⟨?_, ?_, ?_⟩, rfl⟩)
    · rintro rfl; exact hwrite fd rfl
    · rintro rfl; exact hread fd rfl
    · rintro rfl; exact hclose fd rfl

theorem threadEffect_client {call : Call} (h : threadEffect s n call = some s') (m : Nat) :
    s'.client m = s.client m := by
  unfold threadEffect at h
  split at h
  case h_3 =>
    obtain rfl := Option.some.inj h
    by_cases hm : m = n
    · subst hm
      cases he : s.entries m <;> simp [client, he]
    · simp [client, hm]
  case h_1 =>
    obtain ⟨-, h⟩ := Option.ite_none_right_eq_some.mp h
    obtain rfl := Option.some.inj h
    rfl
  case h_2 =>
    obtain ⟨-, h⟩ := Option.ite_none_right_eq_some.mp h
    obtain rfl := Option.some.inj h
    rfl
  all_goals
    obtain rfl := Option.some.inj h
    rfl

theorem owned_setThread_of_ne (s : Server) (t : ThreadState) {m : Nat} (hm : m ≠ n) :
    (s.setThread n t).owned m = s.owned m := by
  unfold owned
  rw [threads_setThread, Function.update_of_ne hm]
  rfl

theorem owned_running {c : Conn} (hn : s.threads n = .running c) : s.owned n = c.openFds := by
  simp [owned, hn]

/-- A call of a thread. -/
theorem FdInv.thread (h : s.FdInv) {call : Call} {c c' : Conn} {s₁ : Server}
    (hn : s.threads n = .running c) (htrans : Conn.Trans C c call c')
    (heffect : threadEffect s n call = some s₁) :
    (c.pc = .closeTail → ∀ fd, call = .close (some fd) → s.fds fd ≠ some n) ∧
    (c.pc ≠ .closeTail → (∀ fd, call = .close (some fd) → s.fds fd = some n) ∧
      (s₁.setThread n (.running c')).FdInv) := by
  obtain ⟨hpc, -, -, hthreads, -⟩ := threadEffect_registry heffect
  have hshape := h.shape n c hn
  have howned := owned_running hn
  have howned' : (s₁.setThread n (.running c')).owned n = c'.openFds :=
    owned_running (by simp)
  have hothers : ∀ m, m ≠ n → (s₁.setThread n (.running c')).owned m = s.owned m := by
    intro m hm
    rw [owned_setThread_of_ne s₁ _ hm]
    unfold owned
    rw [hthreads, hpc, threadEffect_client heffect]
  have hmem : ∀ fd, s.fds fd = some n ↔ fd ∈ c.openFds := fun fd => by rw [h.table, howned]
  -- what is left to show is that the table follows the open descriptors
  have hinv : c'.FdShape → (∀ fd, s₁.fds fd = some n ↔ fd ∈ c'.openFds) →
      (∀ fd m, m ≠ n → (s₁.fds fd = some m ↔ s.fds fd = some m)) →
      (s₁.setThread n (.running c')).FdInv := by
    intro hshape' hself hother
    refine ⟨fun fd m => ?_, fun m d hd => ?_, fun m => ?_, fun m hm => ?_⟩
    · by_cases hm : m = n
      · subst hm; rw [howned']; exact hself fd
      · rw [hothers m hm, ← h.table]; exact hother fd m hm
    · by_cases hm : m = n
      · subst hm
        obtain rfl : c' = d := by simpa using hd
        exact hshape'
      · refine h.shape m d ?_
        simpa [hm, hthreads] using hd
    · by_cases hm : m = n
      · subst hm; simp
      · simpa [hm, hthreads] using h.notFailed m
    · have hclient := threadEffect_client heffect m
      rw [pc_setThread, hpc] at hm
      have hsome := h.accepted m hm
      rw [← hclient] at hsome
      exact hsome
  have hfresh : ∀ fd, call = .openWrite (some fd) ∨ call = .openRead (some fd) →
      fd ∉ c.openFds := by
    intro fd hcall
    rw [← hmem]
    rcases threadEffect_fds heffect with ⟨fd', hcall', hnone, -⟩ | ⟨fd', rfl, -⟩ | ⟨hno, -⟩
    · obtain rfl : fd = fd' := by
        rcases hcall with rfl | rfl <;> simpa using hcall'
      rw [hnone]
      nofun
    · rcases hcall with hcall | hcall <;> exact nomatch hcall
    · rcases hcall with hcall | hcall
      · exact absurd hcall (hno fd).1
      · exact absurd hcall (hno fd).2.1
  have hshape' := hshape.step htrans hfresh
  rcases Conn.mem_openFds_step hshape htrans with
    ⟨fd, hcall, hfds⟩ | ⟨fd, rfl, hpc', hfd, hfds⟩ | ⟨fd, rfl, hpc', hfd⟩ | ⟨hno, hfds⟩
  · rcases threadEffect_fds heffect with ⟨fd', hcall', hnone, hset⟩ | ⟨fd', rfl, -⟩ | ⟨hno, -⟩
    · obtain rfl : fd = fd' := by
        rcases hcall with rfl | rfl <;> simpa using hcall'
      have hclose : ∀ fd', call ≠ .close (some fd') := by
        rcases hcall with rfl | rfl <;> nofun
      refine ⟨fun _ fd' hc => absurd hc (hclose fd'), fun _ =>
        ⟨fun fd' hc => absurd hc (hclose fd'), hinv hshape' (fun x => ?_) fun x m hm => ?_⟩⟩
      · by_cases hx : x = fd
        · subst hx; simp [hset, hfds]
        · simp [hset, hfds, hx, hmem]
      · by_cases hx : x = fd
        · subst hx; simp [hset, hnone, Ne.symm hm]
        · simp [hset, hx]
    · rcases hcall with hcall | hcall <;> exact nomatch hcall
    · rcases hcall with hcall | hcall
      · exact absurd hcall (hno fd).1
      · exact absurd hcall (hno fd).2.1
  · rcases threadEffect_fds heffect with ⟨fd', hcall', -⟩ | ⟨fd', hcall', hset⟩ | ⟨hno, -⟩
    · rcases hcall' with hcall' | hcall' <;> exact nomatch hcall'
    · obtain rfl : fd = fd' := by simpa using hcall'
      have hown := (hmem fd).mpr hfd
      refine ⟨fun hpc => absurd hpc hpc', fun _ => ⟨fun fd' hc => ?_,
        hinv hshape' (fun x => ?_) fun x m hm => ?_⟩⟩
      · obtain rfl : fd = fd' := by simpa using hc
        exact hown
      · by_cases hx : x = fd
        · subst hx; simp [hset, hfds]
        · simp [hset, hfds, hx, hmem]
      · by_cases hx : x = fd
        · subst hx; simp [hset, hown, Ne.symm hm]
        · simp [hset, hx]
    · exact absurd rfl (hno fd).2.2
  · refine ⟨fun _ fd' hc => ?_, fun hno => absurd hpc' hno⟩
    obtain rfl : fd = fd' := by simpa using hc
    rw [ne_eq, hmem]
    exact hfd
  · rcases threadEffect_fds heffect with ⟨fd', hcall', -⟩ | ⟨fd', rfl, -⟩ | ⟨-, hsame⟩
    · rcases hcall' with hcall' | hcall'
      · exact absurd hcall' (hno fd').1
      · exact absurd hcall' (hno fd').2.1
    · exact absurd rfl (hno fd').2.2
    · exact ⟨fun _ fd' hc => absurd hc (hno fd').2.2, fun _ =>
        ⟨fun fd' hc => absurd hc (hno fd').2.2,
          hinv hshape' (fun x => by rw [hsame, hfds, hmem]) fun x m _ => by rw [hsame]⟩⟩

/-- A thread that has ended without a descriptor to write to is joined. -/
theorem FdInv.join (h : s.FdInv) {pc : MainPc} (hend : Ended (s.threads n) = true)
    (hok : ¬ s.Misses (.join n)) (hpc : s.pc.accepted? = none) (hpc' : pc.accepted? = none) :
    FdInv { s.setThread n .joined with pc := pc } := by
  have howned : s.owned n = [] := by
    cases hn : s.threads n with
    | running c =>
      rw [hn] at hend
      have hwrite : c.gMyFileWrite = none := by
        by_contra hne
        exact hok ⟨c, hn, hne⟩
      have hreturned : c.pc = .returned := by simpa [Ended] using hend
      rw [owned_running hn]
      simp [Conn.openFds, hwrite, hreturned, Pc.reading]
    | _ => rw [hn] at hend; exact nomatch hend
  refine h.of_same rfl (fun m => ?_) (fun m => ?_) fun m hm => ?_
  · by_cases hm : m = n
    · subst hm
      rw [howned]
      simp [owned]
    · unfold owned
      rw [hpc, hpc']
      simp [client, hm]
  · by_cases hm : m = n
    · subst hm; simp
    · have hf := h.notFailed m
      have hs := h.shape m
      simpa [hm] using ⟨hf, hs⟩
  · rw [hpc'] at hm
    exact nomatch hm

/-- A step that does not go wrong closes only what is open for its connection, and leaves the
    table right. -/
theorem FdInv.step (h : s.FdInv) (hreg : s.RegInv) (htrans : Trans C s call s')
    (hok : ¬ s.Misses call) : s.ClosesOwn call ∧ s'.FdInv := by
  have hknows := hreg.knows
  cases htrans with
  | malloc hpc =>
    obtain ⟨hthread, -⟩ := hreg.fresh s.entryCount le_rfl
    refine ⟨trivial, h.of_main rfl rfl (by rw [hpc]; rfl) fun m => ?_⟩
    by_cases hm : m = s.entryCount
    · subst hm
      exact .inr ⟨by rw [hthread]; nofun, by rw [hpc]; nofun⟩
    · exact .inl (by simp [client, hm])
  | freeUnaccepted hpc =>
    rw [hpc] at hknows
    exact ⟨trivial, h.free (by rw [show s.threads _ = _ from hknows]; rfl) (by rw [hpc]; rfl)
      (by simp)⟩
  | @accept n fd hpc hfd =>
    rw [hpc] at hknows
    have hthread : s.threads n = .none := hknows
    obtain ⟨e, he⟩ := Option.isSome_iff_exists.mp ((hreg.live n).mpr (.inr (by rw [hpc]; rfl)))
    refine ⟨trivial, fun x m => ?_, h.shape, h.notFailed, fun m hm => ?_⟩
    · have hx := h.table x m
      by_cases hm : m = n
      · subst hm
        by_cases hxfd : x = fd
        · subst hxfd; simp [owned, hthread, MainPc.accepted?, client, he]
        · simpa [owned, hthread, MainPc.accepted?, client, he, hpc, hxfd] using hx
      · have hsame : owned { (s.setFd fd (some n)).setEntry n
            ((s.entries n).map fun e => { e with myClient := some fd }) with pc := .insert n } m =
            s.owned m := by
          simp [owned, client, MainPc.accepted?, hpc, hm, Ne.symm hm]
        rw [hsame, ← hx]
        by_cases hxfd : x = fd
        · subst hxfd; simp [hfd, Ne.symm hm]
        · simp [hxfd]
    · obtain rfl : n = m := by simpa [MainPc.accepted?] using hm
      simp [client, he]
  | insert hpc =>
    exact ⟨trivial, h.of_main rfl rfl (by rw [hpc]; rfl) fun _ => .inl rfl⟩
  | createFailed hpc => exact absurd rfl hok
  | @create n threadId hpc _ =>
    rw [hpc] at hknows
    have hthread : s.threads n = .none := hknows
    have hclient : ∀ m, Server.client { (s.setThread n .created).setEntry n
          ((s.entries n).map fun e => { e with threadId := threadId }) with
        pc := sweepFrom s.head.head? } m = s.client m := by
      intro m
      by_cases hm : m = n
      · subst hm
        cases he : s.entries m <;> simp [client, he]
      · simp [client, hm]
    refine ⟨trivial, h.of_same rfl (fun m => ?_) (fun m => ?_) fun m hm => ?_⟩
    · unfold owned
      rw [hclient, accepted_sweepFrom, hpc]
      by_cases hm : m = n
      · subst hm
        simp [hthread, MainPc.accepted?]
      · simp [hm, MainPc.accepted?, Ne.symm hm]
    · by_cases hm : m = n
      · subst hm; simp
      · have hf := h.notFailed m
        have hs := h.shape m
        simpa [hm] using ⟨hf, hs⟩
    · rw [accepted_sweepFrom] at hm
      exact nomatch hm
  | freeUncreated hpc =>
    rw [hpc] at hknows
    exact ⟨trivial, h.free (by rw [show s.threads _ = _ from hknows]; rfl) (by rw [hpc]; rfl) rfl⟩
  | sweepJoin hpc hend => exact ⟨trivial, h.join hend hok (by rw [hpc]; rfl) rfl⟩
  | sweepFree hpc =>
    rw [hpc] at hknows
    exact ⟨trivial, h.free (by rw [hknows.1]; rfl) (by rw [hpc]; rfl) (by simp)⟩
  | shutdownJoin hpc hend _ => exact ⟨trivial, h.join hend hok (by rw [hpc]; rfl) (by simp)⟩
  | shutdownClose hpc _ => exact absurd trivial hok
  | shutdownFree hpc =>
    rw [hpc] at hknows
    exact ⟨trivial, h.free (by rw [hknows.1]; rfl) (by rw [hpc]; rfl) (by simp)⟩
  | @begin n fd hthread hfd =>
    refine ⟨trivial, h.of_same rfl (fun m => ?_) (fun m => ?_) h.accepted⟩
    · by_cases hm : m = n
      · subst hm
        have hclient : s.client m = some fd := hfd
        simp [owned, hthread, hclient, Conn.openFds, Conn.start]
      · exact owned_setThread_of_ne s _ hm
    · by_cases hm : m = n
      · subst hm
        refine ⟨by simp, fun c hc => ?_⟩
        obtain rfl : Conn.start fd = c := by simpa using hc
        exact ⟨by simp [Conn.start], fun _ => ⟨rfl, rfl⟩, fun hpc => by simp [Conn.start] at hpc⟩
      · have hf := h.notFailed m
        have hs := h.shape m
        simpa [hm] using ⟨hf, hs⟩
  | @thread n call c c' s₁ hthread hc heffect =>
    by_cases hpc : c.pc = .closeTail
    · have hclose : call = .close c.myFileRead := by cases hc <;> simp_all
      exact absurd ⟨c, hthread, hpc⟩ (hclose ▸ hok)
    · obtain ⟨hown, hinv⟩ := (h.thread hthread hc heffect).2 hpc
      refine ⟨?_, hinv⟩
      cases call with
      | close fd => cases fd with
        | none => trivial
        | some fd => exact hown fd rfl
      | _ => trivial
  | @sweepTest n temp value hpc _ =>
    refine ⟨trivial, h.of_main rfl rfl ?_ fun _ => .inl rfl⟩
    cases value
    · rw [hpc]; exact accepted_sweepFrom temp
    · rw [hpc]; rfl
  | _ =>
    refine ⟨trivial, h.of_main rfl rfl ?_ fun _ => .inl rfl⟩
    simp only [*]
    first
    | rfl
    | exact accepted_shutdownFrom _
    | exact accepted_joinFrom _ _ _

/-- A step that goes wrong closes what is not open for its connection, or leaves a descriptor
    open. -/
theorem FdInv.misses (h : s.FdInv) (hreg : s.RegInv) (htrans : Trans C s call s')
    (hmiss : s.Misses call) : ¬ (s.ClosesOwn call ∧ s'.NoneLeft) := by
  have hknows := hreg.knows
  rintro ⟨hown, hleft⟩
  cases htrans with
  | @createFailed n hpc =>
    rw [hpc] at hknows
    have hthread : s.threads n = .none := hknows
    have hpc' : s.pc.accepted? = some n := by rw [hpc]; rfl
    obtain ⟨fd, hfd⟩ := Option.isSome_iff_exists.mp (h.accepted n hpc')
    have hopen : s.fds fd = some n := by
      rw [h.table, owned, hthread]
      simp [hpc', hfd]
    exact hleft n fd (.inr (Function.update_self _ _ _)) hopen
  | create _ _ => exact nomatch hmiss
  | @sweepJoin n temp hpc hend =>
    obtain ⟨c, hthread, hwrite⟩ := hmiss
    obtain ⟨fd, hfd⟩ := Option.ne_none_iff_exists'.mp hwrite
    refine hleft n fd (.inl (Function.update_self _ _ _)) ?_
    change s.fds fd = some n
    rw [h.table, owned_running hthread]
    simp [Conn.openFds, hfd]
  | @shutdownJoin n temp e hpc hend _ =>
    obtain ⟨c, hthread, hwrite⟩ := hmiss
    obtain ⟨fd, hfd⟩ := Option.ne_none_iff_exists'.mp hwrite
    refine hleft n fd (.inl (Function.update_self _ _ _)) ?_
    change s.fds fd = some n
    rw [h.table, owned_running hthread]
    simp [Conn.openFds, hfd]
  | @shutdownClose n fd temp hpc _ =>
    rw [hpc] at hknows
    have hopen : s.fds fd = some n := hown
    rw [h.table, owned, hknows.1] at hopen
    exact nomatch hopen
  | @thread n call c c' s₁ hthread hc heffect =>
    cases call with
    | close fd =>
      obtain ⟨d, hd, hpc⟩ := hmiss
      obtain rfl : c = d := by rw [hthread] at hd; exact ThreadState.running.inj hd
      have hclose : fd = c.myFileRead := by cases hc <;> simp_all
      obtain ⟨fd, hfd⟩ := Option.isSome_iff_exists.mp
        ((h.shape n c hthread).isOpen (.inr (.inr (.inr hpc))))
      rw [hclose, hfd] at hown heffect hc
      exact (h.thread hthread hc heffect).1 hpc fd rfl hown
    | _ => exact hmiss
  | _ => exact hmiss

variable {es : List MainCall}

/-- Descriptors are owned: every `close` is of one that is open for its connection, and none is
    left open for a connection whose thread is joined or was refused. -/
def Owned (C : Libc) (es : List MainCall) : Prop :=
  (lts C).Along ClosesOwn init es ∧
    ∀ pre, pre <+: es → ∀ s, (lts C).run init pre = some s → s.NoneLeft

theorem owned_concat (hrun : (lts C).run init es = some s)
    (hstep : (lts C).step s call = some s') :
    Owned C (es ++ [call]) ↔ Owned C es ∧ s.ClosesOwn call ∧ s'.NoneLeft := by
  have hrun' := Lts.run_concat_eq_some.mpr ⟨s, hrun, hstep⟩
  constructor
  · rintro ⟨hclose, hleft⟩
    obtain ⟨hclose, hlast⟩ := Lts.along_concat.mp hclose
    exact ⟨⟨hclose, fun pre hpre => hleft pre (hpre.trans (List.prefix_append es [call]))⟩,
      hlast s hrun, hleft _ (List.prefix_refl _) s' hrun'⟩
  · rintro ⟨⟨hclose, hleft⟩, hlast, hend⟩
    refine ⟨Lts.along_concat.mpr ⟨hclose, fun m hm => ?_⟩, fun pre hpre m hm => ?_⟩
    · obtain rfl := Option.some.inj (hrun.symm.trans hm)
      exact hlast
    · rcases List.prefix_concat_iff.mp hpre with rfl | hpre
      · obtain rfl := Option.some.inj (hrun'.symm.trans hm)
        exact hend
      · exact hleft pre hpre m hm

/-- In every run of any number of connections and the main thread, whatever their calls return,
    descriptors are owned if and only if no step misses one. -/
theorem descriptors_owned_iff (hrun : (lts C).run init es = some s) :
    Owned C es ↔ (lts C).Along (fun s call => ¬ s.Misses call) init es := by
  have hboth : (Owned C es ↔ (lts C).Along (fun s call => ¬ s.Misses call) init es) ∧
      ((lts C).Along (fun s call => ¬ s.Misses call) init es → s.FdInv) := by
    refine Lts.run_induction (P := fun es s =>
      (Owned C es ↔ (lts C).Along (fun s call => ¬ s.Misses call) init es) ∧
      ((lts C).Along (fun s call => ¬ s.Misses call) init es → s.FdInv)) ?_
      (fun es s call s' hrun ih hstep => ?_) hrun
    · refine ⟨iff_of_true ⟨Lts.along_nil _ _, fun pre hpre m hm => ?_⟩ (Lts.along_nil _ _),
        fun _ => fdInv_init⟩
      obtain rfl := List.prefix_nil.mp hpre
      obtain rfl := Option.some.inj hm
      exact fdInv_init.noneLeft
    · obtain ⟨ih, hinv⟩ := ih
      have hreg := regInv_of_run hrun
      have htrans := trans_of_step hstep
      have hlast : (∀ m, (lts C).run init es = some m → ¬ m.Misses call) ↔ ¬ s.Misses call := by
        rw [hrun]
        simp
      rw [owned_concat hrun hstep, Lts.along_concat, hlast, ih]
      refine ⟨⟨fun ⟨hpre, hown⟩ => ⟨hpre, fun hmiss => ?_⟩, fun ⟨hpre, hok⟩ => ⟨hpre, ?_⟩⟩,
        fun ⟨hpre, hok⟩ => ((hinv hpre).step hreg htrans hok).2⟩
      · exact (hinv hpre).misses hreg htrans hmiss hown
      · obtain ⟨hown, hinv'⟩ := (hinv hpre).step hreg htrans hok
        exact ⟨hown, hinv'.noneLeft⟩
  exact hboth.1

/-- One client that sends a line. Its thread reads the device back once, and closes
    `my_file_read` at the end of its loop and again at the end of `handle_connection`, when
    another client has been accepted under that number. -/
def closedTwice : List MainCall :=
  [.exitFlag false, .malloc (some 0), .accept (some 3), .insert 0, .create 0 (some 9), .next 0,
    .isDone 0 false, .begin 0] ++
  ([.openWrite (some 4), .exitFlag false, .malloc true, .recv (some [97, newline]) [], .lock,
    .write 4 [97, newline] 2, .unlock, .openRead (some 5), .read 5 (some []),
    .close (some 5)].map (.thread 0) ++
  [.exitFlag false, .malloc (some 0), .accept (some 5), .thread 0 (.close (some 5))])

theorem closedTwice_not_owned :
    ∃ s, (lts .glibc).run init closedTwice = some s ∧ ¬ Owned .glibc closedTwice := by
  refine ⟨((lts .glibc).run init closedTwice).get (by decide), (Option.some_get _).symm, ?_⟩
  intro h
  have hown := h.1 closedTwice.dropLast (.thread 0 (.close (some 5))) []
    (((lts .glibc).run init closedTwice.dropLast).get (by decide)) (by decide)
    (Option.some_get _).symm
  exact absurd (show Server.fds _ 5 = some 0 from hown) (by decide)

theorem descriptors_owned_iff_closedTwice :
    ∃ s, (lts .glibc).run init closedTwice = some s ∧
      (Owned .glibc closedTwice ↔
        (lts .glibc).Along (fun s call => ¬ s.Misses call) init closedTwice) :=
  ⟨((lts .glibc).run init closedTwice).get (by decide), (Option.some_get _).symm,
    descriptors_owned_iff (Option.some_get (by decide)).symm⟩

end Server

end Aesd
