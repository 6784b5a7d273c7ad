import Aesd.Spec.DeviceStep
import Aesd.Spec.RecvRoom

/-!
# Whose bytes a stored command holds

The server writes everything that a connection has received when its first newline arrives, and
the driver cuts what is written by anybody at its newlines. So bytes behind the last newline of
a packet stay pending, and the next connection's packet completes them to a command.

To say whose a byte is, every byte written to the device is tagged with its connection
(`taggedStream`); the stored commands, tags and all, are the newest ten lines of the tagged
stream. `DeviceServer.packets_isolated_iff` says when each is one line of one client.
-/

namespace Aesd

namespace Conn

variable {C : Libc} {c c' : Conn} {call : Call} {es : List Call} {myClient : Nat}

/-- A connection may still write. -/
def MayWrite (c : Conn) : Prop :=
  c.pc.receiving = true ∨ (∃ seekto, c.pc = .ioctl seekto) ∨ c.pc = .lock ∨ c.pc = .write

/-- Before its write a connection holds everything it has received in its packet, and before
    the lock it has found a newline there. -/
structure Unwritten (es : List Call) (c : Conn) : Prop where
  noWrite : ∀ fd bytes ret, Call.write fd bytes ret ∉ es
  packet : c.packet = (chunksOf es).flatten
  hasNewline : c.pc = .lock ∨ c.pc = .write → newline ∈ c.packet

theorem MayWrite.not_tail (c : Conn) : ¬ c.tail.MayWrite := by
  rcases c.tail_cases with ⟨-, htail⟩ | ⟨-, htail⟩ <;> rw [htail] <;>
    simp [MayWrite, Pc.receiving]

theorem MayWrite.not_freePacket (c : Conn) : ¬ c.freePacket.MayWrite :=
  MayWrite.not_tail _

/-- A call that neither writes nor receives. -/
theorem Unwritten.of_quiet (h : Unwritten es c) (hwrite : ∀ fd bytes ret, call ≠ .write fd bytes ret)
    (hchunk : call.chunk? = none) (hpacket : c'.packet = c.packet)
    (hpc : c'.pc = .lock ∨ c'.pc = .write → c.pc = .lock ∨ c.pc = .write) :
    Unwritten (es ++ [call]) c' := by
  refine ⟨fun fd bytes ret hmem => ?_, ?_, fun h' => ?_⟩
  · rcases List.mem_append.mp hmem with hmem | hmem
    · exact h.noWrite fd bytes ret hmem
    · exact hwrite fd bytes ret (List.mem_singleton.mp hmem).symm
  · rw [hpacket, h.packet, chunksOf_concat, hchunk]
    simp
  · rw [hpacket]
    exact h.hasNewline (hpc h')

theorem unwritten_of_run (hrun : (lts C).run (start myClient) es = some c) (hc : c.MayWrite) :
    Unwritten es c := by
  refine Lts.run_induction (P := fun es c => c.MayWrite → Unwritten es c) ?_
    (fun es c call c' _ ih hstep hc' => ?_) hrun hc
  · exact fun _ => ⟨by simp, rfl, fun h => by simp [start] at h⟩
  · cases trans_of_step hstep with
    | openWrite hpc =>
      exact (ih (.inl (by rw [hpc]; rfl))).of_quiet nofun rfl rfl (by simp)
    | loop hpc =>
      refine (ih (.inl (by rw [hpc]; rfl))).of_quiet nofun rfl rfl ?_
      cases hbuffer : c.packetBuffer <;> simp
    | malloc hpc =>
      exact (ih (.inl (by rw [hpc]; rfl))).of_quiet nofun rfl rfl (by simp)
    | realloc hpc =>
      exact (ih (.inl (by rw [hpc]; rfl))).of_quiet nofun rfl rfl (by simp)
    | lock hpc =>
      exact (ih (.inr (.inr (.inl hpc)))).of_quiet nofun rfl rfl fun _ => .inl hpc
    | @recv chunk beyond hpc _ _ =>
      have hun := ih (.inl (by rw [hpc]; rfl))
      have hflat : c.packet ++ chunk = (chunksOf (es ++ [.recv (some chunk) beyond])).flatten := by
        rw [chunksOf_concat, hun.packet]
        simp [Call.chunk?]
      have hno : ∀ fd bytes ret, Call.write fd bytes ret ∉ es ++ [.recv (some chunk) beyond] := by
        intro fd bytes ret hmem
        exact hun.noWrite fd bytes ret (by simpa using hmem)
      rcases c.received_cases C chunk beyond with
        ⟨-, hc⟩ | ⟨hnl, -, hc⟩ | ⟨-, -, -, hc⟩ | ⟨seekto, -, -, -, hc⟩ <;> rw [hc]
      · exact ⟨hno, hflat, fun h => by simp at h⟩
      · exact ⟨hno, hflat, fun _ => hnl⟩
      · exact ⟨hno, hflat, fun h => by simp at h⟩
      · exact ⟨hno, hflat, fun h => by simp at h⟩
    | _ =>
      exfalso
      first
      | exact MayWrite.not_tail _ hc'
      | exact MayWrite.not_freePacket _ hc'
      | simp [MayWrite, Pc.receiving] at hc'

end Conn

namespace DeviceServer

variable {K : Kernel} {C : Libc} {es : List (Nat × DeviceCall)}
  {g g' : Threads Nat DeviceState (Option Conn)} {c : Nat × DeviceCall}

/-- The bytes of connection `i`. -/
def tag (i : Nat) (bytes : List UInt8) : List (Nat × UInt8) := bytes.map fun b => (i, b)

/-- The bytes that a step writes to the device, in state `g`. -/
def writtenIn (g : Threads Nat DeviceState (Option Conn)) : Nat × DeviceCall → List (Nat × UInt8)
  | (i, .call call _) => tag i (toDevice g.shared call)
  | (_, .accept _) => []

/-- All bytes written to the device in a run, in order, each with the connection it is from. -/
def taggedStream (K : Kernel) (C : Libc) (es : List (Nat × DeviceCall)) : List (Nat × UInt8) :=
  (lts K C).collect (fun c g => writtenIn g c) init es

/-- Separators of the tagged stream are the newlines. -/
abbrev isTaggedNewline : Nat × UInt8 → Bool := isNewline ∘ Prod.snd

/-- The commands stored after a run, with the connection that each byte is from. -/
def storedCommands (K : Kernel) (C : Libc) (es : List (Nat × DeviceCall)) :
    List (List (Nat × UInt8)) :=
  (Lines.lines isTaggedNewline (taggedStream K C es)).rtake maxWriteOperationsSupported

/-- Every stored command is a line, in full, of what one client has sent. -/
def Isolated (K : Kernel) (C : Libc) (es : List (Nat × DeviceCall)) : Prop :=
  ∀ command ∈ storedCommands K C es, ∃ i,
    ∃ line ∈ commandLines (chunksOf (callsOf i es)).flatten, command = tag i line

/-- What is written to the device finds nothing pending there; or it has more than ten lines
    itself, so that the first of them is dropped at once. -/
def StartsAfresh (g : Threads Nat DeviceState (Option Conn)) : Nat × DeviceCall → Prop
  | (_, .call call _) => toDevice g.shared call ≠ [] → g.shared.driver.pending = [] ∨
      maxWriteOperationsSupported < (commandLines (toDevice g.shared call)).length
  | (_, .accept _) => True

/-- Every write in the run writes all it is to write. -/
def AllWritten (es : List (Nat × DeviceCall)) : Prop :=
  ∀ c ∈ es, ∀ call out, c.2 = .call call out → WritesAll call

/-! ### The tagged stream -/

theorem toDevice_congr {s s' : DeviceState} {i : Nat} {out : DeviceOutcome} {call : Call}
    (h : deviceCall K i s out call = some s') : toDevice s' call = toDevice s call := by
  cases call with
  | write fd bytes ret =>
    rcases DeviceState.fileCall_eq_some.mp h with ⟨-, rfl⟩ | ⟨-, h⟩
    · rfl
    · obtain ⟨r, d, -, -, rfl⟩ := DeviceState.driverCall_eq_some.mp h
      rfl
  | _ => rfl

theorem taggedStream_concat (hrun : (lts K C).run init es = some g)
    (hstep : (lts K C).step g c = some g') :
    taggedStream K C (es ++ [c]) = taggedStream K C es ++ writtenIn g c := by
  rw [taggedStream, Lts.collect_concat hrun hstep, ← taggedStream]
  obtain ⟨i, l⟩ := c
  obtain ⟨s, t, htrans, rfl⟩ := lts_step hstep
  cases htrans with
  | accept _ _ => rfl
  | call _ _ hcall => rw [writtenIn, writtenIn, toDevice_congr hcall]

/-- The device holds the tagged stream without its tags, and only bytes of connections that
    have written are in it. -/
structure StreamInv (K : Kernel) (C : Libc) (es : List (Nat × DeviceCall))
    (g : Threads Nat DeviceState (Option Conn)) : Prop where
  holds : g.shared.driver.Holds ((taggedStream K C es).map Prod.snd)
  writers : ∀ b ∈ taggedStream K C es, ∃ fd bytes ret, .write fd bytes ret ∈ callsOf b.1 es

theorem callsOf_subset (i : Nat) (es : List (Nat × DeviceCall)) (c : Nat × DeviceCall) :
    callsOf i es ⊆ callsOf i (es ++ [c]) := by
  obtain ⟨j, l⟩ := c
  by_cases hj : j = i
  · subst hj
    rw [callsOf_concat_self]
    exact List.subset_append_left _ _
  · rw [callsOf_concat_of_ne hj]
    exact List.Subset.refl _

theorem map_snd_tag (i : Nat) (bytes : List UInt8) : (tag i bytes).map Prod.snd = bytes := by
  simp [tag, Function.comp_def]

theorem fst_of_mem_tag {i : Nat} {bytes : List UInt8} {x : Nat × UInt8} (h : x ∈ tag i bytes) :
    x.1 = i := by
  obtain ⟨b, -, rfl⟩ := List.mem_map.mp h
  rfl

theorem streamInv_of_run (hrun : (lts K C).run init es = some g) (hall : AllWritten es) :
    StreamInv K C es g := by
  refine Lts.run_induction (P := fun es g => AllWritten es → StreamInv K C es g)
    (fun _ => ⟨Driver.Holds.init K, by simp [taggedStream, Lts.collect]⟩)
    (fun es g c g' hrun ih hstep hall => ?_) hrun hall
  have hinv := ih fun c hc => hall c (List.mem_append_left _ hc)
  have hstream := taggedStream_concat hrun hstep
  have hold : ∀ b ∈ taggedStream K C es,
      ∃ fd bytes ret, .write fd bytes ret ∈ callsOf b.1 (es ++ [c]) := by
    intro b hb
    obtain ⟨fd, bytes, ret, hmem⟩ := hinv.writers b hb
    exact ⟨fd, bytes, ret, callsOf_subset _ _ _ hmem⟩
  obtain ⟨i, l⟩ := c
  obtain ⟨s, t, htrans, rfl⟩ := lts_step hstep
  cases htrans with
  | accept _ _ =>
    rw [writtenIn, List.append_nil] at hstream
    refine ⟨?_, ?_⟩
    · rw [hstream]
      exact hinv.holds
    · rw [hstream]
      exact hold
  | @call call out c c' s' ht hc hcall =>
    refine ⟨?_, ?_⟩
    · rw [hstream, List.map_append, writtenIn, map_snd_tag]
      exact holds_of_deviceCall (driverInv_of_run hrun) hinv.holds
        (hall (i, .call call out) (by simp) call out rfl) hcall
    · rw [hstream]
      intro b hb
      rcases List.mem_append.mp hb with hb | hb
      · exact hold b hb
      · obtain ⟨x, hx, rfl⟩ := List.mem_map.mp hb
        cases call with
        | write fd bytes ret =>
          refine ⟨fd, bytes, ret, ?_⟩
          rw [callsOf_concat_self]
          exact List.mem_append_right _ (by simp [DeviceCall.call?])
        | _ => exact absurd hx List.not_mem_nil

/-- What a connection writes to the device is all it has received, and has a newline; and it
    has not written before. -/
theorem toDevice_of_run {i : Nat} {call : Call} {out : DeviceOutcome}
    (hrun : (lts K C).run init es = some g)
    (hstep : (lts K C).step g (i, .call call out) = some g')
    (hwrite : toDevice g.shared call ≠ []) :
    toDevice g.shared call = (chunksOf (callsOf i es)).flatten ∧
      newline ∈ toDevice g.shared call ∧
      ∀ fd bytes ret, Call.write fd bytes ret ∉ callsOf i es := by
  obtain ⟨s, t, htrans, -⟩ := lts_step hstep
  cases htrans with
  | @call call out c c' s' ht hc hcall =>
    cases call with
    | write fd bytes ret =>
      have hpc : c.pc = .write ∧ bytes = c.packet := by cases hc <;> exact ⟨by assumption, rfl⟩
      obtain ⟨hpc, rfl⟩ := hpc
      have hbytes : toDevice g.shared (.write fd c.packet ret) = c.packet := by
        by_cases hsocket : g.shared.sockets fd = true
        · exact absurd (if_pos hsocket) hwrite
        · exact if_neg hsocket
      rcases conn_of_run hrun i with ⟨hnone, -⟩ | ⟨c₀, myClient, hc₀, hconn⟩
      · rw [ht] at hnone
        exact nomatch hnone
      · obtain rfl : c₀ = c := Option.some.inj (hc₀.symm.trans ht)
        have hun := Conn.unwritten_of_run hconn (.inr (.inr (.inr hpc)))
        rw [hbytes]
        exact ⟨hun.packet, hun.hasNewline (.inr hpc), hun.noWrite⟩
    | _ => exact absurd rfl hwrite

/-! ### The stored commands -/

theorem lines_tag (i : Nat) (bytes : List UInt8) :
    Lines.lines isTaggedNewline (tag i bytes) = (commandLines bytes).map (tag i) :=
  Lines.lines_map (fun b => (i, b)) bytes

theorem StreamInv.commands_eq (h : StreamInv K C es g) :
    g.shared.driver.commands = (storedCommands K C es).map (List.map Prod.snd) := by
  rw [h.holds.commands_eq, keptLines, commandLines, Lines.lines_map, storedCommands,
    List.map_rtake]

theorem StreamInv.pending_eq_nil_iff (h : StreamInv K C es g) :
    g.shared.driver.pending = [] ↔ Lines.rest isTaggedNewline (taggedStream K C es) = [] := by
  rw [h.holds.pending_eq, commandRest, Lines.rest_map, List.map_eq_nil_iff]

theorem storedCommands_concat (hrun : (lts K C).run init es = some g)
    (hstep : (lts K C).step g c = some g') :
    storedCommands K C (es ++ [c]) = (storedCommands K C es ++ Lines.lines isTaggedNewline
      (Lines.rest isTaggedNewline (taggedStream K C es) ++ writtenIn g c)).rtake
        maxWriteOperationsSupported := by
  rw [storedCommands, taggedStream_concat hrun hstep, Lines.lines_append, storedCommands,
    List.rtake_rtake_append]

/-- What a client has sent so far stays the start of what it sends. -/
theorem received_prefix_concat (i : Nat) (es : List (Nat × DeviceCall)) (c : Nat × DeviceCall) :
    (chunksOf (callsOf i es)).flatten <+: (chunksOf (callsOf i (es ++ [c]))).flatten := by
  obtain ⟨j, l⟩ := c
  by_cases hj : j = i
  · subst hj
    rw [callsOf_concat_self, chunksOf, chunksOf, List.filterMap_append, List.flatten_append]
    exact List.prefix_append _ _
  · rw [callsOf_concat_of_ne hj]

/-- A command of the stored ones that were there before is isolated after a step, too. -/
theorem Isolated.old (h : Isolated K C es) {command : List (Nat × UInt8)}
    (hcommand : command ∈ storedCommands K C es) :
    ∃ i, ∃ line ∈ commandLines (chunksOf (callsOf i (es ++ [c]))).flatten,
      command = tag i line := by
  obtain ⟨i, line, hline, rfl⟩ := h command hcommand
  exact ⟨i, line, (Lines.lines_prefix (received_prefix_concat i es c)).subset hline, rfl⟩

/-- A step that starts afresh keeps the commands isolated. -/
theorem Isolated.step (h : Isolated K C es) (hrun : (lts K C).run init es = some g)
    (hstep : (lts K C).step g c = some g') (hinv : StreamInv K C es g)
    (hfresh : StartsAfresh g c) : Isolated K C (es ++ [c]) := by
  intro command hcommand
  rw [storedCommands_concat hrun hstep] at hcommand
  obtain ⟨i, l⟩ := c
  cases l with
  | accept myClient =>
    have hrest : Lines.lines isTaggedNewline
        (Lines.rest isTaggedNewline (taggedStream K C es) ++ []) = [] := by
      rw [List.append_nil]
      exact Lines.lines_eq_nil fun x hx => Lines.sep_eq_false_of_mem_rest hx
    rw [writtenIn, hrest, List.append_nil] at hcommand
    exact h.old ((List.rtake_suffix _ _).subset hcommand)
  | call call out =>
    rw [writtenIn] at hcommand
    by_cases hwrite : toDevice g.shared call = []
    · have hrest : Lines.lines isTaggedNewline
          (Lines.rest isTaggedNewline (taggedStream K C es) ++ tag i []) = [] := by
        rw [tag, List.map_nil, List.append_nil]
        exact Lines.lines_eq_nil fun x hx => Lines.sep_eq_false_of_mem_rest hx
      rw [hwrite, hrest, List.append_nil] at hcommand
      exact h.old ((List.rtake_suffix _ _).subset hcommand)
    · obtain ⟨hreceived, -, -⟩ := toDevice_of_run hrun hstep hwrite
      have hnew : ∀ line ∈ commandLines (toDevice g.shared call),
          ∃ j, ∃ line' ∈ commandLines (chunksOf (callsOf j
            (es ++ [(i, .call call out)]))).flatten, tag i line = tag j line' := by
        intro line hline
        rw [hreceived] at hline
        exact ⟨i, line, (Lines.lines_prefix (received_prefix_concat i es _)).subset hline, rfl⟩
      rcases hfresh hwrite with hpending | hmany
      · rw [hinv.pending_eq_nil_iff.mp hpending, List.nil_append, lines_tag] at hcommand
        rcases List.mem_append.mp ((List.rtake_suffix _ _).subset hcommand) with hold | hlast
        · exact h.old hold
        · obtain ⟨line, hline, heq⟩ := List.mem_map.mp hlast
          rw [← heq]
          exact hnew line hline
      · -- the line that the packet completes is not among the last ten
        obtain ⟨line, lines, hlines⟩ := List.exists_cons_of_length_pos
          (Nat.zero_lt_of_lt hmany)
        have hcut := Lines.lines_append_of_cons (a := Lines.rest isTaggedNewline (taggedStream K C es))
          (fun x hx => Lines.sep_eq_false_of_mem_rest hx)
          ((lines_tag i (toDevice g.shared call)).trans (congrArg (List.map (tag i)) hlines))
        rw [hlines, List.length_cons] at hmany
        rw [hcut, ← List.singleton_append, ← List.append_assoc,
          List.rtake_append_of_le_length _ (by rw [List.length_map]; omega)] at hcommand
        obtain ⟨line', hline', rfl⟩ := List.mem_map.mp ((List.rtake_suffix _ _).subset hcommand)
        exact hnew line' (by rw [hlines]; exact List.mem_cons_of_mem _ hline')

/-- Where the commands are isolated after a step, it started afresh. -/
theorem Isolated.startsAfresh (h : Isolated K C (es ++ [c]))
    (hrun : (lts K C).run init es = some g) (hstep : (lts K C).step g c = some g')
    (hinv : StreamInv K C es g) : StartsAfresh g c := by
  obtain ⟨i, l⟩ := c
  cases l with
  | accept myClient => trivial
  | call call out =>
    intro hwrite
    obtain ⟨-, hnl, hfirst⟩ := toDevice_of_run hrun hstep hwrite
    rw [hinv.pending_eq_nil_iff, or_iff_not_imp_left, ← not_le]
    intro hrest hfew
    obtain ⟨b, rest, hb⟩ := List.exists_cons_of_ne_nil hrest
    -- the line that the packet completes, with bytes of an earlier writer at its start
    obtain ⟨line, lines, hlines⟩ : ∃ line lines,
        commandLines (toDevice g.shared call) = line :: lines :=
      List.exists_cons_of_ne_nil (Lines.lines_ne_nil hnl rfl)
    have hcut := Lines.lines_append_of_cons (a := Lines.rest isTaggedNewline (taggedStream K C es))
      (fun x hx => Lines.sep_eq_false_of_mem_rest hx)
      ((lines_tag i (toDevice g.shared call)).trans (congrArg (List.map (tag i)) hlines))
    have hmem : Lines.rest isTaggedNewline (taggedStream K C es) ++ tag i line ∈
        storedCommands K C (es ++ [(i, .call call out)]) := by
      rw [storedCommands_concat hrun hstep, writtenIn]
      refine List.mem_rtake_append_of_length_le _ ?_ (by rw [hcut]; exact List.mem_cons_self)
      rw [hcut, List.length_cons, List.length_map]
      rwa [hlines, List.length_cons] at hfew
    obtain ⟨j, line', -, heq⟩ := h _ hmem
    have htag : ∀ x ∈ Lines.rest isTaggedNewline (taggedStream K C es) ++ tag i line,
        x.1 = j := by
      intro x hx
      rw [heq] at hx
      exact fst_of_mem_tag hx
    have hline : Lines.IsLine isNewline line :=
      Lines.isLine_of_mem_lines (show line ∈ commandLines (toDevice g.shared call) by
        rw [hlines]; exact List.mem_cons_self)
    obtain ⟨body, x, rfl, -, -⟩ := hline
    have hi : i = j := htag (i, x) (by simp [tag])
    have hbi : b.1 = i := (htag b (by rw [hb]; simp)).trans hi.symm
    have hbmem : b ∈ taggedStream K C es :=
      (Lines.rest_suffix _).subset (by rw [hb]; exact List.mem_cons_self)
    obtain ⟨fd, bytes, ret, hwrote⟩ := hinv.writers b hbmem
    rw [hbi] at hwrote
    exact hfirst fd bytes ret hwrote

/-- Connection `i` on descriptor `fd`, from its start until it has written its packet. -/
def packetCalls (i fd : Nat) (packet : List UInt8) : List (Nat × DeviceCall) :=
  (i, .accept fd) ::
    [Call.openWrite (some (fd + 1)), .exitFlag false, .malloc true, .recv (some packet) [], .lock,
      .write (fd + 1) packet packet.length, .unlock].map fun call => (i, .call call .ok)

/-- One client sends `"a\nb"`, and then another one `"c\n"`. -/
def byteBehindLine : List (Nat × DeviceCall) :=
  packetCalls 0 3 [97, newline, 98] ++ packetCalls 1 5 [99, newline]

theorem allWritten_packetCalls (i fd : Nat) (packet : List UInt8) :
    AllWritten (packetCalls i fd packet) := by
  rintro c hc call out hcall fd' bytes ret rfl
  simp only [packetCalls, List.map_cons, List.map_nil, List.mem_cons, List.not_mem_nil,
    or_false] at hc
  rcases hc with rfl | rfl | rfl | rfl | rfl | rfl | rfl | rfl
  case inr.inr.inr.inr.inr.inr.inl =>
    obtain ⟨-, rfl, rfl⟩ := Call.write.inj (DeviceCall.call.inj hcall).1
    rfl
  all_goals simp at hcall

theorem allWritten_byteBehindLine : AllWritten byteBehindLine := fun c hc =>
  (List.mem_append.mp hc).elim (allWritten_packetCalls 0 3 _ c) (allWritten_packetCalls 1 5 _ c)

end DeviceServer

end Aesd
