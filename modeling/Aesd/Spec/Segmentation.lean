import Aesd.Spec.RecvRoom
import Aesd.Spec.DriverInvariant

/-!
# Where a stream is cut

A connection writes what it has received up to the chunk that brings the first newline, with
everything else in that chunk, and then it ends. So what is written of a stream depends on where
`recv` cuts it, unless nothing follows the first newline (`Conn.segmentation_iff`).
-/

namespace Aesd

/-- The bytes written in a run. -/
def writtenOf (es : List Call) : List UInt8 := es.flatMap Call.written

theorem writtenOf_concat (es : List Call) (call : Call) :
    writtenOf (es ++ [call]) = writtenOf es ++ call.written := by
  simp [writtenOf]

theorem writtenOf_append (es fs : List Call) :
    writtenOf (es ++ fs) = writtenOf es ++ writtenOf fs := by
  simp [writtenOf]

/-- `recv` returns a stream in pieces, and its end only when all of it was returned. -/
structure Fed (stream : List UInt8) (es : List Call) : Prop where
  pieces : (chunksOf es).flatten <+: stream
  atEnd : ∀ pre beyond post, es = pre ++ .recv none beyond :: post →
    (chunksOf pre).flatten = stream

theorem Fed.of_append {stream : List UInt8} {es fs : List Call} (h : Fed stream (es ++ fs)) :
    Fed stream es := by
  refine ⟨?_, fun pre beyond post heq => h.atEnd pre beyond (post ++ fs) (by rw [heq]; simp)⟩
  refine List.IsPrefix.trans ?_ h.pieces
  rw [chunksOf, chunksOf, List.filterMap_append, List.flatten_append]
  exact List.prefix_append _ _

namespace Conn

variable {C : Libc} {c c' : Conn} {call : Call} {es : List Call} {myClient : Nat}
  {stream : List UInt8}

/-- A run of a connection from its start to its return in which no call fails, fed from
    `stream`. -/
def Complete (C : Libc) (stream : List UInt8) (es : List Call) : Prop :=
  (∃ myClient c, (lts C).run (start myClient) es = some c ∧ c.pc = .returned) ∧
    (∀ call ∈ es, call.Succeeds) ∧ Fed stream es

/-- A packet with a newline does not look like a seek command with what lies behind it, unless
    it is one. -/
theorem no_seekPrefix {packet : List UInt8} (hnl : newline ∈ packet)
    (hpacket : packet <+: stream) (hseek : ¬ seekPrefix <:+: stream) (beyond : List UInt8) :
    ¬ seekPrefix <+: packet ++ beyond := by
  intro hpart
  rcases List.prefix_or_prefix_of_prefix hpart (List.prefix_append packet beyond) with h | h
  · exact hseek (h.isInfix.trans hpacket.isInfix)
  · exact absurd (h.subset hnl) (by decide)

/-- What a connection has written and what it has received. -/
def SegInv (stream : List UInt8) (es : List Call) (c : Conn) : Prop :=
  match c.pc with
  | .openWrite | .loopTop | .malloc | .recv | .realloc =>
    writtenOf es = [] ∧ c.packet = (chunksOf es).flatten ∧ newline ∉ (chunksOf es).flatten
  | .lock | .write =>
    writtenOf es = [] ∧ c.packet = (chunksOf es).flatten ∧ newline ∈ (chunksOf es).flatten
  | .ioctl _ | .seekRead | .seekSend | .unlockFailed => False
  | _ =>
    writtenOf es = (chunksOf es).flatten ∧ newline ∈ (chunksOf es).flatten ∨
      writtenOf es = [] ∧ newline ∉ stream

theorem SegInv.tail
    (h : writtenOf es = (chunksOf es).flatten ∧ newline ∈ (chunksOf es).flatten ∨
      writtenOf es = [] ∧ newline ∉ stream) : SegInv stream es c.tail := by
  rcases c.tail_cases with ⟨-, htail⟩ | ⟨-, htail⟩ <;> rw [htail] <;> exact h

/-- A call that neither receives nor writes, within one of the groups of `SegInv`. -/
theorem SegInv.of_quiet (h : SegInv stream es c) (hchunk : call.chunk? = none)
    (hwritten : call.written = [])
    (hgroup : SegInv stream es c → SegInv stream es c') : SegInv stream (es ++ [call]) c' := by
  have hchunks : chunksOf (es ++ [call]) = chunksOf es := by
    rw [chunksOf_concat, hchunk, Option.toList_none, List.append_nil]
  have hw : writtenOf (es ++ [call]) = writtenOf es := by
    rw [writtenOf_concat, hwritten, List.append_nil]
  have h' := hgroup h
  unfold SegInv at h' ⊢
  rw [hchunks, hw]
  exact h'

theorem SegInv.step (h : SegInv stream es c) (hseek : ¬ seekPrefix <:+: stream)
    (hfed : Fed stream (es ++ [call])) (hok : call.Succeeds) (htrans : Trans C c call c') :
    SegInv stream (es ++ [call]) c' := by
  have hpieces := hfed.pieces
  cases htrans with
  | openWriteFailed hpc => simp [Call.Succeeds] at hok
  | exit hpc => simp [Call.Succeeds] at hok
  | mallocFailed hpc => simp [Call.Succeeds] at hok
  | reallocFailed hpc => simp [Call.Succeeds] at hok
  | @recvEnd beyond hpc =>
    simp only [SegInv, hpc] at h
    have hend := hfed.atEnd es beyond [] rfl
    refine SegInv.tail (.inr ?_)
    rw [writtenOf_concat, h.1, ← hend]
    exact ⟨rfl, h.2.2⟩
  | @recv chunk beyond hpc _ _ =>
    simp only [SegInv, hpc] at h
    obtain ⟨hwritten, hpacket, hno⟩ := h
    have hflat : (chunksOf (es ++ [.recv (some chunk) beyond])).flatten = c.packet ++ chunk := by
      rw [chunksOf_concat, hpacket]
      simp [Call.chunk?]
    have hwritten' : writtenOf (es ++ [.recv (some chunk) beyond]) = [] := by
      rw [writtenOf_concat, hwritten]
      rfl
    rw [hflat] at hpieces
    rcases c.received_cases C chunk beyond with
      ⟨hno, hc⟩ | ⟨hnl, -, hc⟩ | ⟨hnl, hpart, -, hc⟩ | ⟨seekto, hnl, hpart, -, hc⟩ <;> rw [hc]
    · exact ⟨hwritten', hflat.symm, by rwa [hflat]⟩
    · exact ⟨hwritten', hflat.symm, by rwa [hflat]⟩
    · exact absurd hpart (no_seekPrefix hnl hpieces hseek beyond)
    · exact absurd hpart (no_seekPrefix hnl hpieces hseek beyond)
  | write hpc _ =>
    simp only [SegInv, hpc] at h
    obtain ⟨hwritten, hpacket, hnl⟩ := h
    refine .inl ?_
    rw [writtenOf_concat, chunksOf_concat, hwritten]
    simpa [Call.written, Call.chunk?, hpacket] using hnl
  | writeFailed hpc _ hret => exact absurd hok hret
  | loop hpc =>
    refine h.of_quiet rfl rfl fun h => ?_
    simp only [SegInv, hpc] at h
    cases hbuffer : c.packetBuffer <;> exact h
  | ioctlFailed hpc _ => simp only [SegInv, hpc] at h
  | ioctl hpc _ => simp only [SegInv, hpc] at h
  | seekReadFailed hpc _ => simp only [SegInv, hpc] at h
  | seekReadEnd hpc _ => simp only [SegInv, hpc] at h
  | seekRead hpc _ _ _ => simp only [SegInv, hpc] at h
  | seekSendFailed hpc => simp only [SegInv, hpc] at h
  | seekSend hpc => simp only [SegInv, hpc] at h
  | unlockFailed hpc => simp only [SegInv, hpc] at h
  | openReadFailed hpc => simp [Call.Succeeds] at hok
  | readBackFailed hpc _ => simp [Call.Succeeds] at hok
  | closeReadFailed hpc _ =>
    refine h.of_quiet rfl rfl fun h => ?_
    simp only [SegInv, hpc] at h
    exact SegInv.tail h
  | closeRead hpc _ =>
    refine h.of_quiet rfl rfl fun h => ?_
    simp only [SegInv, hpc] at h
    exact SegInv.tail (c := { c with packetBuffer := none, packet := [] }) h
  | _ =>
    refine h.of_quiet rfl rfl fun h => ?_
    simpa only [SegInv, *] using h

theorem segInv_of_run (hrun : (lts C).run (start myClient) es = some c)
    (hseek : ¬ seekPrefix <:+: stream) (hok : ∀ call ∈ es, call.Succeeds) (hfed : Fed stream es) :
    SegInv stream es c := by
  refine Lts.run_induction (P := fun es c => (∀ call ∈ es, call.Succeeds) → Fed stream es →
    SegInv stream es c) ?_ (fun es c call c' _ ih hstep hok hfed => ?_) hrun hok hfed
  · intro _ _
    exact ⟨rfl, rfl, List.not_mem_nil⟩
  · exact (ih (fun call hcall => hok call (List.mem_append_left _ hcall)) hfed.of_append).step
      hseek hfed (hok call (by simp)) (trans_of_step hstep)

/-- What a connection that runs to its end has written: what it has received, if that has a
    newline, and nothing only if the stream has none. -/
theorem Complete.written (h : Complete C stream es) (hseek : ¬ seekPrefix <:+: stream) :
    newline ∈ writtenOf es ∧ writtenOf es <+: stream ∨
      writtenOf es = [] ∧ newline ∉ stream := by
  obtain ⟨⟨myClient, c, hrun, hpc⟩, hok, hfed⟩ := h
  have hinv := segInv_of_run hrun hseek hok hfed
  simp only [SegInv, hpc] at hinv
  refine hinv.imp_left fun hinv => ?_
  rw [hinv.1]
  exact ⟨hinv.2, hfed.pieces⟩

/-! ### A run for every way to cut -/

/-- Receiving chunks without a newline, from one `recv` to the next. -/
def receiveCalls (chunks : List (List UInt8)) : List Call :=
  chunks.flatMap fun chunk => [.recv (some chunk) [], .realloc true, .exitFlag false]

/-- Receiving the chunk that brings the newline, writing the packet, and reading back nothing. -/
def writeCalls (myClient : Nat) (before chunk : List UInt8) : List Call :=
  [.recv (some chunk) [], .lock, .write 4 (before ++ chunk) (before ++ chunk).length, .unlock,
    .openRead (some 5), .read 5 (some []), .close (some 5), .close (some 5), .setDone,
    .close (some myClient)]

/-- A connection that receives `chunks` and then `chunk`, and writes them. -/
def connectionCalls (myClient : Nat) (chunks : List (List UInt8)) (chunk : List UInt8) :
    List Call :=
  [.openWrite (some 4), .exitFlag false, .malloc true] ++ receiveCalls chunks ++
    writeCalls myClient chunks.flatten chunk

/-- A piece that `recv` can return. -/
def IsChunk (chunk : List UInt8) : Prop := chunk ≠ [] ∧ chunk.length ≤ initialBufferSize

theorem run_receiveCalls {chunks : List (List UInt8)} (hchunks : ∀ chunk ∈ chunks, IsChunk chunk)
    (hno : newline ∉ c.packet ++ chunks.flatten) (hpc : c.pc = .recv)
    (hbuffer : c.packetBuffer.isSome) :
    ∃ size, (lts C).run c (receiveCalls chunks) =
      some { c with packetBuffer := some size, packet := c.packet ++ chunks.flatten } := by
  induction chunks generalizing c with
  | nil =>
    obtain ⟨size, hsize⟩ := Option.isSome_iff_exists.mp hbuffer
    exact ⟨size, by rw [← hsize]; simp [receiveCalls]⟩
  | cons chunk chunks ih =>
    obtain ⟨hne, hlen⟩ := hchunks chunk List.mem_cons_self
    rw [List.flatten_cons, ← List.append_assoc] at hno
    have hno' : newline ∉ c.packet ++ chunk := fun h => hno (List.mem_append_left _ h)
    obtain ⟨size, hrun⟩ := ih (c := { c with
        packetBuffer := some ((c.packet ++ chunk).length * 2), packet := c.packet ++ chunk })
      (fun chunk h => hchunks chunk (List.mem_cons_of_mem _ h)) hno hpc rfl
    refine ⟨size, ?_⟩
    have hrecv : step C c (.recv (some chunk) []) =
        some { c with packet := c.packet ++ chunk, pc := .realloc } := by
      simp only [step, hpc, received, if_neg hno', if_pos (And.intro hne hlen)]
    change (lts C).run c ([.recv (some chunk) [], .realloc true, .exitFlag false] ++
      receiveCalls chunks) = _
    rw [Lts.run_append, Lts.run_cons, show (lts C).step c _ = _ from hrecv]
    simpa [Lts.run_cons, lts, step, hpc] using hrun

theorem run_writeCalls {chunk : List UInt8} (hchunk : IsChunk chunk)
    (hnl : newline ∈ c.packet ++ chunk) (hseek : ¬ seekPrefix <+: c.packet ++ chunk)
    (hpc : c.pc = .recv) (hwrite : c.gMyFileWrite = some 4) (hfailed : c.readFailed = false) :
    ∃ c', (lts C).run c (writeCalls c.myClient c.packet chunk) = some c' ∧ c'.pc = .returned := by
  have hseek' : ¬ seekPrefix.isPrefixOf (c.packet ++ chunk) = true :=
    fun h => hseek (List.isPrefixOf_iff_prefix.mp h)
  have hrecv : step C c (.recv (some chunk) []) =
      some { c with packet := c.packet ++ chunk, pc := .lock } := by
    simp only [step, hpc, received, if_pos hnl, List.append_nil, if_neg hseek',
      if_pos (And.intro hchunk.1 hchunk.2)]
  exact ⟨_, Lts.run_cons_eq_some.mpr ⟨_, hrecv,
    run_cons_of_trans (.lock rfl) <| run_cons_of_trans (.write rfl hwrite) <|
    run_cons_of_trans (.unlock rfl) <| run_cons_of_trans (.openRead rfl) <|
    run_cons_of_trans (.readBackEnd rfl rfl) <| run_cons_of_trans (.closeRead rfl hfailed) <|
    run_cons_of_trans (.closeTail rfl) <| run_cons_of_trans (.setDone rfl) <|
    run_cons_of_trans (.closeClient rfl) rfl⟩, rfl⟩

theorem chunksOf_connectionCalls (myClient : Nat) (chunks : List (List UInt8))
    (chunk : List UInt8) :
    chunksOf (connectionCalls myClient chunks chunk) = chunks ++ [chunk] := by
  have hreceive : chunksOf (receiveCalls chunks) = chunks := by
    induction chunks with
    | nil => rfl
    | cons chunk chunks ih => exact congrArg (chunk :: ·) ih
  rw [connectionCalls, chunksOf, List.filterMap_append, List.filterMap_append, ← chunksOf,
    ← chunksOf, ← chunksOf, hreceive]
  rfl

theorem writtenOf_connectionCalls (myClient : Nat) (chunks : List (List UInt8))
    (chunk : List UInt8) :
    writtenOf (connectionCalls myClient chunks chunk) = chunks.flatten ++ chunk := by
  have hreceive : writtenOf (receiveCalls chunks) = [] := by
    induction chunks with
    | nil => rfl
    | cons chunk chunks ih => exact ih
  rw [connectionCalls, writtenOf_append, writtenOf_append, hreceive]
  simp [writtenOf, writeCalls, Call.written]

/-- Every way to cut a stream up to its first newline is that of a run. -/
theorem complete_connectionCalls {chunks : List (List UInt8)} {chunk : List UInt8}
    (hchunks : ∀ chunk ∈ chunks, IsChunk chunk) (hchunk : IsChunk chunk)
    (hno : newline ∉ chunks.flatten) (hnl : newline ∈ chunk)
    (hpieces : chunks.flatten ++ chunk <+: stream) (hseek : ¬ seekPrefix <:+: stream) :
    Complete C stream (connectionCalls myClient chunks chunk) := by
  refine ⟨⟨myClient, ?_⟩, ?_, ?_, ?_⟩
  · obtain ⟨size, hreceive⟩ := run_receiveCalls (C := C) (c := { start myClient with
        pc := .recv, gMyFileWrite := some 4, packetBuffer := some initialBufferSize })
      hchunks hno rfl rfl
    obtain ⟨c', hwrite, hpc⟩ := run_writeCalls (C := C) (c := { start myClient with
        pc := .recv, gMyFileWrite := some 4, packetBuffer := some size, packet := chunks.flatten })
      hchunk (List.mem_append_right _ hnl)
      (fun h => hseek (h.isInfix.trans hpieces.isInfix)) rfl rfl rfl
    exact ⟨c', Lts.run_append_eq_some.mpr
      ⟨_, Lts.run_append_eq_some.mpr ⟨_, rfl, hreceive⟩, hwrite⟩, hpc⟩
  · intro call hcall
    simp only [connectionCalls, receiveCalls, writeCalls, List.mem_append, List.mem_flatMap,
      List.mem_cons, List.not_mem_nil, or_false] at hcall
    rcases hcall with (hcall | ⟨chunk, -, hcall⟩) | hcall
    · rcases hcall with rfl | rfl | rfl <;> simp [Call.Succeeds]
    · rcases hcall with rfl | rfl | rfl <;> simp [Call.Succeeds]
    · rcases hcall with rfl | rfl | rfl | rfl | rfl | rfl | rfl | rfl | rfl | rfl <;>
        simp [Call.Succeeds]
  · rw [chunksOf_connectionCalls]
    simpa using hpieces
  · intro pre beyond post heq
    have hmem : Call.recv none beyond ∈ connectionCalls myClient chunks chunk := by
      rw [heq]
      simp
    simp [connectionCalls, receiveCalls, writeCalls] at hmem

/-- For a stream without the seek prefix, what is written is the same for every two ways to cut
    the stream if and only if its first newline, if there is one, is its last byte. -/
theorem segmentation_iff (hseek : ¬ seekPrefix <:+: stream) :
    (∀ es₁ es₂, Complete C stream es₁ → Complete C stream es₂ → writtenOf es₁ = writtenOf es₂) ↔
      newline ∉ stream ∨ Lines.IsLine isNewline stream := by
  constructor
  · intro hsame
    rcases Lines.exists_first_line isNewline stream with
      hno | ⟨body, s, tail, rfl, hs, hbody⟩
    · exact .inl fun hnl => by simpa [isNewline] using hno newline hnl
    · refine .inr ?_
      obtain rfl : s = newline := eq_of_beq hs
      have hflat : (body.map ([·])).flatten = body := by
        rw [← List.flatMap_def, List.flatMap_singleton']
      have hno : newline ∉ (body.map ([·])).flatten := by
        rw [hflat]
        intro hmem
        simpa [isNewline] using hbody newline hmem
      have hchunks : ∀ chunk ∈ body.map ([·]), IsChunk chunk := by
        intro chunk hmem
        obtain ⟨b, -, rfl⟩ := List.mem_map.mp hmem
        exact ⟨by simp, show 1 ≤ 512 by decide⟩
      cases tail with
      | nil => exact ⟨body, newline, rfl, rfl, hbody⟩
      | cons b tail =>
        -- the chunk with the newline ends with it, or takes one more byte
        have hshort : Complete C (body ++ newline :: b :: tail)
            (connectionCalls 3 (body.map ([·])) [newline]) :=
          complete_connectionCalls hchunks ⟨by simp, by decide⟩ hno (by simp) (by simp [hflat])
            hseek
        have hlong : Complete C (body ++ newline :: b :: tail)
            (connectionCalls 3 (body.map ([·])) [newline, b]) :=
          complete_connectionCalls hchunks ⟨by simp, show 2 ≤ 512 by decide⟩ hno (by simp)
            (by simp [hflat]) hseek
        have heq := hsame _ _ hshort hlong
        simp [writtenOf_connectionCalls] at heq
  · intro hcut es₁ es₂ h₁ h₂
    -- what is written is the whole stream, or nothing of a stream without a newline
    have hwhole : ∀ es, Complete C stream es →
        writtenOf es = if newline ∈ stream then stream else [] := by
      intro es h
      rcases h.written hseek with ⟨hnl, hpart⟩ | ⟨hnil, hno⟩
      · rw [if_pos (hpart.subset hnl)]
        have hline := hcut.resolve_left fun hno => hno (hpart.subset hnl)
        exact hline.eq_of_prefix hpart hnl rfl
      · rw [if_neg hno, hnil]
    rw [hwhole es₁ h₁, hwhole es₂ h₂]

/-- The stream `"a\nb"`. -/
def bytesBehind : List UInt8 := [97, newline, 98]

theorem segmentation_iff_bytesBehind :
    (∀ es₁ es₂, Complete .glibc bytesBehind es₁ → Complete .glibc bytesBehind es₂ →
      writtenOf es₁ = writtenOf es₂) ↔
      newline ∉ bytesBehind ∨ Lines.IsLine isNewline bytesBehind :=
  segmentation_iff (by decide)

/-- Cut behind the newline `"a\n"` is written, not cut at all `"a\nb"` is. -/
theorem bytesBehind_written_differently :
    ∃ es₁ es₂, Complete .glibc bytesBehind es₁ ∧ Complete .glibc bytesBehind es₂ ∧
      ¬ seekPrefix <:+: bytesBehind ∧ writtenOf es₁ = [97, newline] ∧
      writtenOf es₂ = [97, newline, 98] :=
  ⟨connectionCalls 3 [] [97, newline], connectionCalls 3 [] [97, newline, 98],
    complete_connectionCalls (by simp) ⟨by simp, by decide⟩ (by simp) (by simp) (by decide)
      (by decide),
    complete_connectionCalls (by simp) ⟨by simp, by decide⟩ (by simp) (by simp) (by decide)
      (by decide), by decide, by decide, by decide⟩

end Conn

end Aesd
