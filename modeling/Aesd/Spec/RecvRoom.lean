import Aesd.Spec.ConnectionStep

/-!
# Room for `recv`

Every `recv` of a connection may store `INITIAL_BUFFER_SIZE` bytes behind the packet. The size
of the buffer is nowhere stored; it follows from what was received so far: `capacity` computes
it from the chunks (`RecvInv`). Growing to twice the packet leaves enough room only if the
packet has that many bytes itself, and the way back to the top after a malformed seek command
does not grow the buffer at all. `Conn.recv_room_iff` says exactly which chunks are safe.
-/

namespace Aesd

/-- A chunk with no newline in it. -/
def noNewline (chunk : List UInt8) : Bool := decide (newline ∉ chunk)

/-- The chunks received in a run, in order. -/
def chunksOf (es : List Call) : List (List UInt8) := es.filterMap Call.chunk?

/-- The bytes before the first chunk with a newline. -/
def bytesBefore (chunks : List (List UInt8)) : Nat := (chunks.takeWhile noNewline).flatten.length

/-- The bytes from the first chunk with a newline on. -/
def bytesFrom (chunks : List (List UInt8)) : Nat := (chunks.dropWhile noNewline).flatten.length

/-- The size of the packet buffer once `chunks` were received: as long as none has a newline
    each of them doubles the packet's length, after that the buffer stays. -/
def capacity (chunks : List (List UInt8)) : Nat :=
  if chunks.takeWhile noNewline = [] then initialBufferSize else bytesBefore chunks * 2

/-- The chunks leave room for another `recv`. -/
def RoomFor (chunks : List (List UInt8)) : Prop :=
  chunks = [] ∨ bytesFrom chunks + initialBufferSize ≤ bytesBefore chunks

theorem chunksOf_concat (es : List Call) (call : Call) :
    chunksOf (es ++ [call]) = chunksOf es ++ call.chunk?.toList := by
  rw [chunksOf, List.filterMap_append, chunksOf]
  cases h : call.chunk? <;> simp [h]

theorem bytesBefore_add_bytesFrom (chunks : List (List UInt8)) :
    bytesBefore chunks + bytesFrom chunks = chunks.flatten.length := by
  rw [bytesBefore, bytesFrom, ← List.length_append, ← List.flatten_append,
    List.takeWhile_append_dropWhile]

theorem takeWhile_noNewline_eq_self {chunks : List (List UInt8)} :
    chunks.takeWhile noNewline = chunks ↔ newline ∉ chunks.flatten := by
  induction chunks with
  | nil => simp
  | cons chunk chunks ih =>
    rw [List.takeWhile_cons, List.flatten_cons, List.mem_append, not_or]
    by_cases h : newline ∈ chunk
    · simp [noNewline, h]
    · rw [if_pos (by simpa [noNewline] using h), List.cons_inj_right, ih]
      exact ⟨fun hall => ⟨h, hall⟩, fun hall => hall.2⟩

/-- From the first newline on, more chunks do not change the buffer. -/
theorem takeWhile_noNewline_concat {chunks : List (List UInt8)} {chunk : List UInt8}
    (h : newline ∈ chunks.flatten ++ chunk) :
    (chunks ++ [chunk]).takeWhile noNewline = chunks.takeWhile noNewline := by
  rw [List.takeWhile_append]
  split
  · next hall =>
    have hself : chunks.takeWhile noNewline = chunks :=
      (List.takeWhile_prefix _).eq_of_length hall
    have hchunk : newline ∈ chunk :=
      (List.mem_append.mp h).resolve_left (takeWhile_noNewline_eq_self.mp hself)
    rw [hself, List.takeWhile_cons_of_neg (by simpa [noNewline] using hchunk), List.append_nil]
  · rfl

/-- A `recv` fits into the buffer just when the chunks so far leave room for it. -/
theorem room_iff {chunks : List (List UInt8)} (hne : ∀ chunk ∈ chunks, chunk ≠ []) :
    chunks.flatten.length + initialBufferSize ≤ capacity chunks ↔ RoomFor chunks := by
  have hsum := bytesBefore_add_bytesFrom chunks
  by_cases hnil : chunks = []
  · simp [hnil, capacity, RoomFor]
  · have hpos : 0 < chunks.flatten.length := by
      rw [List.length_pos_iff, ne_eq, List.flatten_eq_nil_iff]
      intro hall
      obtain ⟨chunk, rest, rfl⟩ := List.exists_cons_of_ne_nil hnil
      exact hne chunk (by simp) (hall chunk (by simp))
    rw [RoomFor, or_iff_right hnil, capacity]
    split
    · next hempty =>
      have hbefore : bytesBefore chunks = 0 := by rw [bytesBefore, hempty]; rfl
      omega
    · omega

namespace Conn

variable {C : Libc} {c c' : Conn} {call : Call} {chunks : List (List UInt8)}

/-- A `recv` has room for the bytes it may store. -/
def HasRoom (c : Conn) (call : Call) : Prop :=
  ∀ chunk beyond, call = .recv chunk beyond →
    ∃ size, c.packetBuffer = some size ∧ c.packet.length + initialBufferSize ≤ size

/-- The packet and its buffer after `chunks`, where the thread may come back to `recv`. -/
def RecvInv (chunks : List (List UInt8)) (c : Conn) : Prop :=
  match c.pc with
  | .openWrite => chunks = [] ∧ c.packet = [] ∧ c.packetBuffer = none
  | .loopTop => c.packet = chunks.flatten ∧
      c.packetBuffer = if chunks = [] then none else some (capacity chunks)
  | .malloc => chunks = [] ∧ c.packet = []
  | .recv => c.packet = chunks.flatten ∧ c.packetBuffer = some (capacity chunks)
  | .realloc => c.packet = chunks.flatten ∧ chunks ≠ [] ∧ newline ∉ chunks.flatten
  | _ => True

theorem RecvInv.tail (chunks : List (List UInt8)) (c : Conn) : RecvInv chunks c.tail := by
  rcases c.tail_cases with ⟨-, htail⟩ | ⟨-, htail⟩ <;> rw [htail] <;> trivial

/-- What a received chunk does to the packet and its buffer. -/
theorem RecvInv.received (hpacket : c.packet = chunks.flatten)
    (hbuffer : c.packetBuffer = some (capacity chunks)) (chunk beyond : List UInt8) :
    RecvInv (chunks ++ [chunk]) (c.received C chunk beyond) := by
  have hflat : (chunks ++ [chunk]).flatten = c.packet ++ chunk := by simp [hpacket]
  rcases c.received_cases C chunk beyond with
    ⟨hno, hc⟩ | ⟨-, -, hc⟩ | ⟨hnl, -, -, hc⟩ | ⟨seekto, -, -, -, hc⟩ <;> rw [hc]
  · exact ⟨hflat.symm, by simp, by rwa [hflat]⟩
  · trivial
  · -- a malformed seek command: the packet grows, the buffer does not
    refine ⟨hflat.symm, ?_⟩
    rw [hpacket] at hnl
    rw [if_neg (by simp), capacity, takeWhile_noNewline_concat hnl, bytesBefore,
      takeWhile_noNewline_concat hnl]
    exact hbuffer
  · trivial

/-- One call keeps track of the buffer. -/
theorem RecvInv.step (h : RecvInv chunks c) (htrans : Trans C c call c') :
    RecvInv (chunks ++ call.chunk?.toList) c' := by
  cases htrans with
  | openWriteFailed _ => trivial
  | openWrite hpc =>
    simp only [RecvInv, hpc] at h
    obtain ⟨rfl, hpacket, hbuffer⟩ := h
    exact ⟨hpacket, hbuffer⟩
  | loop hpc =>
    simp only [RecvInv, hpc] at h
    obtain ⟨hpacket, hbuffer⟩ := h
    simp only [RecvInv, Call.chunk?, Option.toList_none, List.append_nil]
    by_cases hnil : chunks = []
    · simp only [hnil, if_true] at hpacket hbuffer
      simp [hbuffer, hnil, hpacket]
    · rw [if_neg hnil] at hbuffer
      simp [hbuffer, hpacket]
  | malloc hpc =>
    simp only [RecvInv, hpc] at h
    obtain ⟨rfl, hpacket⟩ := h
    exact ⟨hpacket, rfl⟩
  | recv hpc _ _ =>
    simp only [RecvInv, hpc] at h
    exact .received h.1 h.2 _ _
  | realloc hpc =>
    simp only [RecvInv, hpc] at h
    obtain ⟨hpacket, hne, hno⟩ := h
    have hself := takeWhile_noNewline_eq_self.mpr hno
    simp only [RecvInv, Call.chunk?, Option.toList_none, List.append_nil]
    rw [if_neg hne, capacity, bytesBefore, hself, if_neg hne, hpacket]
    exact ⟨rfl, rfl⟩
  | _ => first | trivial | exact RecvInv.tail _ _

/-- Every chunk a thread receives has a byte in it. -/
theorem chunksOf_ne_nil {c₀ : Conn} {es : List Call} (hrun : (lts C).run c₀ es = some c) :
    ∀ chunk ∈ chunksOf es, chunk ≠ [] := by
  refine Lts.run_induction (P := fun es _ => ∀ chunk ∈ chunksOf es, chunk ≠ []) (by simp [chunksOf])
    (fun es c call c' _ ih hstep => ?_) hrun
  rw [chunksOf_concat]
  intro chunk hchunk
  rcases List.mem_append.mp hchunk with hchunk | hchunk
  · exact ih chunk hchunk
  · cases trans_of_step hstep with
    | recv _ hne _ =>
      simp only [Call.chunk?, Option.toList_some, List.mem_singleton] at hchunk
      rwa [hchunk]
    | _ => simp [Call.chunk?] at hchunk

theorem RecvInv.of_run {myClient : Nat} {es : List Call}
    (hrun : (lts C).run (start myClient) es = some c) : RecvInv (chunksOf es) c := by
  refine Lts.run_induction (P := fun es c => RecvInv (chunksOf es) c)
    (show RecvInv [] (start myClient) from ⟨rfl, rfl, rfl⟩) (fun es c call c' _ ih hstep => ?_) hrun
  rw [chunksOf_concat]
  exact ih.step (trans_of_step hstep)

/-- In every run, each `recv` has room for the bytes it may store if and only if it is the
    first one, or at least 512 bytes more were received before the first chunk with a newline
    than from that chunk on. -/
theorem recv_room_iff {myClient : Nat} {es : List Call}
    (hrun : (lts C).run (start myClient) es = some c) :
    (lts C).Along HasRoom (start myClient) es ↔
      ∀ pre chunk beyond post, es = pre ++ .recv chunk beyond :: post → RoomFor (chunksOf pre) := by
  have hroom : ∀ pre chunk beyond post s, es = pre ++ .recv chunk beyond :: post →
      (lts C).run (start myClient) pre = some s →
      (HasRoom s (.recv chunk beyond) ↔ RoomFor (chunksOf pre)) := by
    intro pre chunk beyond post s hes hpre
    rw [hes] at hrun
    obtain ⟨s', hpre', hrest⟩ := Lts.run_append_eq_some.mp hrun
    rw [hpre, Option.some.injEq] at hpre'
    subst hpre'
    obtain ⟨s', hstep, -⟩ := Lts.run_cons_eq_some.mp hrest
    have hpc : s.pc = .recv := by cases trans_of_step hstep <;> assumption
    have hinv := RecvInv.of_run hpre
    simp only [RecvInv, hpc] at hinv
    rw [← room_iff (chunksOf_ne_nil hpre), ← hinv.1]
    constructor
    · intro h
      obtain ⟨size, hsize, hle⟩ := h chunk beyond rfl
      rw [hinv.2, Option.some.injEq] at hsize
      rwa [hsize]
    · exact fun h _ _ _ => ⟨_, hinv.2, h⟩
  constructor
  · intro h pre chunk beyond post hes
    rw [hes] at hrun
    obtain ⟨s, hpre, -⟩ := Lts.run_append_eq_some.mp hrun
    exact (hroom pre chunk beyond post s hes hpre).mp (h pre _ post s hes hpre)
  · intro h pre call post s hes hpre chunk beyond hcall
    subst hcall
    exact (hroom pre chunk beyond post s hes hpre).mpr (h pre chunk beyond post hes) chunk beyond
      rfl

/-- A client whose first chunk is one byte long: the buffer shrinks to two bytes. -/
def shortFirstChunk : List Call :=
  [.openWrite (some 4), .exitFlag false, .malloc true, .recv (some [97]) [], .realloc true,
    .exitFlag false, .recv (some [98]) []]

theorem recv_room_iff_shortFirstChunk :
    ((lts .glibc).Along HasRoom (start 3) shortFirstChunk ↔
      ∀ pre chunk beyond post, shortFirstChunk = pre ++ .recv chunk beyond :: post →
        RoomFor (chunksOf pre)) ∧
    ((lts .glibc).run (start 3) shortFirstChunk).isSome :=
  ⟨recv_room_iff (c := ((lts .glibc).run (start 3) shortFirstChunk).get (by decide))
    (Option.some_get _).symm, by decide⟩

theorem shortFirstChunk_no_room :
    ((lts .glibc).run (start 3) (shortFirstChunk.take 6)).map
        (fun c => (c.packetBuffer, c.packet)) = some (some 2, [97]) ∧
      ¬ (lts .glibc).Along HasRoom (start 3) shortFirstChunk := by
  refine ⟨by decide, fun h => ?_⟩
  obtain ⟨size, hsize, hle⟩ := h (shortFirstChunk.take 6) (.recv (some [98]) []) []
    (((lts .glibc).run (start 3) (shortFirstChunk.take 6)).get (by decide)) rfl rfl _ _ rfl
  have hsize' : (2 : Nat) = size := Option.some.inj hsize
  subst hsize'
  exact absurd hle (by decide)

end Conn

end Aesd
