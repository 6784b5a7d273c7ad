import Aesd.Spec.DataFile

/-!
# Answers from the data file

In the build with a data file a connection stores its packet at the start of the file and then
reads the file from the start, without the mutex. `FileServer.answers_in_place`: whatever the
others store meanwhile, each byte that a client gets is the byte at that place of the data file
at some moment since the client's packet was stored, and an answer that is read to the end is as
long as the file is then. `FileServer.answer_of_quiet`: if nothing is stored meanwhile, the
answer is the data file, and that starts with the client's packet.
-/

namespace Aesd

namespace Pc

/-- Between the calls of the loop that reads the answer. -/
def answering : Pc → Bool
  | .readBack | .sendBack => true
  | _ => false

/-- The packet is stored, and the answer is not read to its end. -/
def stored : Pc → Bool
  | .unlock | .openRead | .readBack | .sendBack => true
  | _ => false

/-- No byte of the answer is sent. -/
def unanswered : Pc → Bool
  | .openWrite | .loopTop | .malloc | .recv | .realloc | .ioctl _ | .lock | .write
  | .unlockFailed | .unlock | .openRead => true
  | _ => false

/-- Between the calls of the loop that a successful seek request leads to. -/
def seeking : Pc → Bool
  | .seekRead | .seekSend => true
  | _ => false

end Pc

namespace Conn

variable {C : Libc} {c c' : Conn} {call : Call}

/-- What is read and not yet sent. -/
def unsent (c : Conn) : List UInt8 := if c.pc = .sendBack then c.readerBuf else []

/-- Apart from the steps that come first here, a step sends nothing and leads into none of the
    places where something is known about the answer. -/
theorem answer_step (h : Trans C c call c') :
    (∃ fd seekto, call = .ioctl fd seekto true) ∨ c.pc.seeking = true ∨
    (c.pc = .sendBack ∧ call = .send c.readerBuf true ∧ c' = { c with pc := .readBack }) ∨
    (∃ fd bytes, c.pc = .readBack ∧ call = .read fd (some bytes) ∧
      c' = { c with readerBuf := bytes, pc := .sendBack }) ∨
    (∃ fd, c.pc = .openRead ∧ call = .openRead (some fd) ∧ c'.pc = .readBack) ∨
    (∃ fd, c.pc = .write ∧ call = .write fd c.packet c.packet.length ∧ c'.pc = .unlock) ∨
    (call.sent = [] ∧ c'.pc.answering = false ∧ c'.pc.seeking = false ∧
      (c'.pc.stored = true → c.pc.stored = true) ∧
      (c'.pc.unanswered = true → c.pc.unanswered = true)) := by
  have htail : ∀ c : Conn, c.tail.pc = .closeTail ∨ c.tail.pc = .setDone := by
    intro c
    rcases c.tail_cases with ⟨-, htail⟩ | ⟨-, htail⟩ <;> rw [htail] <;> simp
  cases h with
  | ioctl _ _ => exact .inl ⟨_, _, rfl⟩
  | seekReadFailed hpc _ => exact .inr (.inl (by rw [hpc]; rfl))
  | seekReadEnd hpc _ => exact .inr (.inl (by rw [hpc]; rfl))
  | seekRead hpc _ _ _ => exact .inr (.inl (by rw [hpc]; rfl))
  | seekSendFailed hpc => exact .inr (.inl (by rw [hpc]; rfl))
  | seekSend hpc => exact .inr (.inl (by rw [hpc]; rfl))
  | sendBack hpc => exact .inr (.inr (.inl ⟨hpc, rfl, rfl⟩))
  | readBack hpc _ _ _ => exact .inr (.inr (.inr (.inl ⟨_, _, hpc, rfl, rfl⟩)))
  | openRead hpc => exact .inr (.inr (.inr (.inr (.inl ⟨_, hpc, rfl, rfl⟩))))
  | write hpc _ => exact .inr (.inr (.inr (.inr (.inr (.inl ⟨_, hpc, rfl, rfl⟩)))))
  | loop hpc =>
    refine .inr (.inr (.inr (.inr (.inr (.inr ?_)))))
    cases c.packetBuffer <;>
      simp [Call.sent, Pc.answering, Pc.seeking, Pc.stored, Pc.unanswered, hpc]
  | recv hpc _ _ =>
    refine .inr (.inr (.inr (.inr (.inr (.inr ?_)))))
    rcases c.received_cases C _ _ with
      ⟨-, hc⟩ | ⟨-, -, hc⟩ | ⟨-, -, -, hc⟩ | ⟨seekto, -, -, -, hc⟩ <;> rw [hc] <;>
      simp [Call.sent, Pc.answering, Pc.seeking, Pc.stored, Pc.unanswered, hpc]
  | closeRead hpc _ =>
    refine .inr (.inr (.inr (.inr (.inr (.inr ?_)))))
    rcases htail { c with packetBuffer := none, packet := [] } with hpc' | hpc' <;>
      simp [freePacket, hpc', Call.sent, Pc.answering, Pc.seeking, Pc.stored, Pc.unanswered]
  | _ =>
    refine .inr (.inr (.inr (.inr (.inr (.inr ?_)))))
    rcases htail c with hpc' | hpc' <;>
      simp_all [Call.sent, Pc.answering, Pc.seeking, Pc.stored, Pc.unanswered]

theorem ne_openWrite (h : Trans C c call c') : c'.pc ≠ .openWrite := by
  have htail : ∀ c : Conn, c.tail.pc ≠ .openWrite := by
    intro c
    rcases c.tail_cases with ⟨-, htail⟩ | ⟨-, htail⟩ <;> rw [htail] <;> simp
  cases h with
  | loop _ => cases c.packetBuffer <;> simp
  | recv _ _ _ =>
    rcases c.received_cases C _ _ with
      ⟨-, hc⟩ | ⟨-, -, hc⟩ | ⟨-, -, -, hc⟩ | ⟨seekto, -, -, -, hc⟩ <;> rw [hc] <;> simp
  | _ => first | exact htail _ | simp

end Conn

/-- The bytes that a call sends to the client of its thread. -/
def FileCall.sent : FileCall → List UInt8
  | .call c => c.sent
  | _ => []

namespace FileThread

/-- What the thread's connection has read and not yet sent. -/
def unsent (t : FileThread) : List UInt8 :=
  match t.body with
  | .connection c => c.unsent
  | _ => []

end FileThread

namespace FileServer

variable {C : Libc} {i : Nat} {j : Option Nat} {s s' : FileState} {t t' : FileThread} {l : FileCall}
  {es : List (Option Nat × FileCall)} {g g' : Threads (Option Nat) FileState FileThread}

/-- The bytes that the client of connection `i` has got. -/
def sentTo (i : Nat) (es : List (Option Nat × FileCall)) : List UInt8 :=
  (Lts.labelsOf (some i) es).flatMap FileCall.sent

/-- Connection `i` has stored a packet. -/
def StoredBy (i : Nat) (es : List (Option Nat × FileCall)) : Prop :=
  ∃ fd packet, (some i, .call (.write fd packet packet.length)) ∈ es

/-- Each of the bytes was at its place in the data file at some moment since connection `i`
    stored its packet. -/
def InPlace (C : Libc) (i : Nat) (es : List (Option Nat × FileCall)) (bytes : List UInt8) : Prop :=
  ∀ (k : Nat) (b : UInt8), bytes[k]? = some b → ∃ moment m, moment <+: es ∧
    (lts C).run init moment = some m ∧ StoredBy i moment ∧ m.shared.dataFile[k]? = some b

/-- What is known about the answer of connection `i`. -/
structure AnswerInv (C : Libc) (i : Nat) (es : List (Option Nat × FileCall)) (s : FileState)
    (t : FileThread) : Prop where
  inPlace : InPlace C i es (sentTo i es ++ t.unsent)
  fresh : (∀ c, t.body ≠ .connection c) → sentTo i es = []
  unanswered : ∀ c, t.body = .connection c → c.pc.unanswered = true → sentTo i es = []
  stored : ∀ c, t.body = .connection c → c.pc.stored = true → StoredBy i es
  seeking : ∀ c, t.body = .connection c → c.pc.seeking = false
  offset : ∀ c, t.body = .connection c → c.pc.answering = true →
    t.fileRead.offset = (sentTo i es ++ t.unsent).length ∧
      t.fileRead.offset ≤ s.dataFile.length

@[simp] theorem sentTo_concat_self (i : Nat) (es : List (Option Nat × FileCall)) (l : FileCall) :
    sentTo i (es ++ [(some i, l)]) = sentTo i es ++ l.sent := by
  simp [sentTo]

theorem sentTo_concat_of_ne (h : j ≠ some i) (es : List (Option Nat × FileCall)) (l : FileCall) :
    sentTo i (es ++ [(j, l)]) = sentTo i es := by
  rw [sentTo, Lts.labelsOf_concat_of_ne h, sentTo]

theorem StoredBy.append (h : StoredBy i es) (fs : List (Option Nat × FileCall)) :
    StoredBy i (es ++ fs) := by
  obtain ⟨fd, packet, hmem⟩ := h
  exact ⟨fd, packet, List.mem_append_left _ hmem⟩

theorem InPlace.append {bytes : List UInt8} (h : InPlace C i es bytes)
    (fs : List (Option Nat × FileCall)) : InPlace C i (es ++ fs) bytes := by
  intro k b hb
  obtain ⟨moment, m, hprefix, hrun, hstored, hfile⟩ := h k b hb
  exact ⟨moment, m, hprefix.trans (List.prefix_append _ _), hrun, hstored, hfile⟩

/-- What is read from the file now, behind what was in its place before. -/
theorem InPlace.read {bytes : List UInt8} (h : InPlace C i es bytes)
    (hrun : (lts C).run init es = some g) (hstored : StoredBy i es) (n : Nat) :
    InPlace C i es (bytes ++ (g.shared.dataFile.drop bytes.length).take n) := by
  intro k b hb
  by_cases hk : k < bytes.length
  · rw [List.getElem?_append_left hk] at hb
    exact h k b hb
  · rw [List.getElem?_append_right (by omega), List.getElem?_take] at hb
    obtain ⟨-, hb⟩ := Option.ite_none_right_eq_some.mp hb
    rw [List.getElem?_drop, Nat.add_sub_cancel' (by omega)] at hb
    exact ⟨es, g, List.prefix_rfl, hrun, hstored, hb⟩

/-- The data file never gets shorter. -/
theorem Trans.length_le (h : Trans C j s t l s' t') (hfiles : FilesInv t) :
    s.dataFile.length ≤ s'.dataFile.length := by
  rw [h.dataFile hfiles]
  cases l with
  | call call =>
    simp only [List.length_append, List.length_drop]
    omega
  | _ => simp

/-- Steps of other threads, and of the handler on this one. -/
theorem AnswerInv.other (h : AnswerInv C i es s t) {c : Option Nat × FileCall}
    (hsent : sentTo i (es ++ [c]) = sentTo i es) (hbody : t'.body = t.body)
    (hfile : t'.fileRead = t.fileRead) (hlen : s.dataFile.length ≤ s'.dataFile.length) :
    AnswerInv C i (es ++ [c]) s' t' := by
  have hunsent : t'.unsent = t.unsent := by rw [FileThread.unsent, FileThread.unsent, hbody]
  refine ⟨?_, ?_, ?_, ?_, ?_, ?_⟩
  · rw [hsent, hunsent]
    exact h.inPlace.append _
  · rw [hsent, hbody]
    exact h.fresh
  · rw [hsent, hbody]
    exact h.unanswered
  · rw [hbody]
    exact fun c hc hpc => (h.stored c hc hpc).append _
  · rw [hbody]
    exact h.seeking
  · rw [hsent, hbody, hunsent, hfile]
    exact fun c hc hpc => ⟨(h.offset c hc hpc).1, (h.offset c hc hpc).2.trans hlen⟩
theorem InPlace.of_prefix {bytes bytes' : List UInt8} (h : InPlace C i es bytes)
    (hstart : bytes' <+: bytes) : InPlace C i es bytes' := by
  intro k b hb
  obtain ⟨rest, rfl⟩ := hstart
  obtain ⟨hk, -⟩ := List.getElem?_eq_some_iff.mp hb
  exact h k b (by rw [List.getElem?_append_left hk, hb])

theorem AnswerInv.of_connection {c : Conn} (hbody : t.body = .connection c)
    (inPlace : InPlace C i es (sentTo i es ++ c.unsent))
    (unanswered : c.pc.unanswered = true → sentTo i es = [])
    (stored : c.pc.stored = true → StoredBy i es) (seeking : c.pc.seeking = false)
    (offset : c.pc.answering = true →
      t.fileRead.offset = (sentTo i es ++ c.unsent).length ∧
        t.fileRead.offset ≤ s.dataFile.length) :
    AnswerInv C i es s t := by
  have hunsent : t.unsent = c.unsent := by rw [FileThread.unsent, hbody]
  have hc : ∀ {c₁ : Conn}, t.body = .connection c₁ → c₁ = c := fun h =>
    FileBody.connection.inj (h.symm.trans hbody)
  refine ⟨by rw [hunsent]; exact inPlace, fun h => absurd hbody (h c), ?_, ?_, ?_, ?_⟩
  · intro c₁ h
    rw [hc h]
    exact unanswered
  · intro c₁ h
    rw [hc h]
    exact stored
  · intro c₁ h
    rw [hc h]
    exact seeking
  · intro c₁ h
    rw [hc h, hunsent]
    exact offset

/-- A call of the connection itself. -/
theorem AnswerInv.call {c c' : Conn} {call : Call} {t₁ : FileThread}
    (h : AnswerInv C i es g.shared (g.locals (some i))) (hrun : (lts C).run init es = some g)
    (hbody : (g.locals (some i)).body = .connection c) (hc : Conn.Trans C c call c')
    (hcall : connectionCall (some i) g.shared (g.locals (some i)) call = some (s', t₁))
    (hlen : g.shared.dataFile.length ≤ s'.dataFile.length) :
    AnswerInv C i (es ++ [(some i, .call call)]) s' { t₁ with body := .connection c' } := by
  obtain ⟨hinPlace, -, hunanswered, hstored, hseeking, hoffset⟩ := h
  have hunsent : (g.locals (some i)).unsent = c.unsent := by rw [FileThread.unsent, hbody]
  rw [hunsent] at hinPlace hoffset
  replace hunanswered := hunanswered c hbody
  replace hstored := hstored c hbody
  replace hseeking := hseeking c hbody
  replace hoffset := hoffset c hbody
  rcases Conn.answer_step hc with ⟨fd, seekto, rfl⟩ | hpc | ⟨hpc, rfl, rfl⟩ |
    ⟨fd, bytes, hpc, rfl, rfl⟩ | ⟨fd, hpc, rfl, hpc'⟩ | ⟨fd, hpc, rfl, hpc'⟩ |
    ⟨hsent, hanswering', hseeking', hstored', hunanswered'⟩
  · -- the data file knows no `ioctl`
    simp [connectionCall] at hcall
  · rw [hseeking] at hpc
    exact absurd hpc (by simp)
  · -- what was read is sent
    obtain ⟨rfl, rfl⟩ : g.shared = s' ∧ g.locals (some i) = t₁ := by
      simpa [connectionCall] using hcall
    have hsent : sentTo i (es ++ [(some i, .call (.send c.readerBuf true))]) =
        sentTo i es ++ c.unsent := by
      simp [FileCall.sent, Call.sent, Conn.unsent, hpc]
    refine .of_connection rfl ?_ (by simp [Pc.unanswered])
      (fun _ => (hstored (by rw [hpc]; rfl)).append _) rfl fun _ => ?_
    · simpa [hsent, Conn.unsent] using hinPlace.append _
    · simpa [hsent, Conn.unsent] using hoffset (by rw [hpc]; rfl)
  · -- the next piece of the file is read
    obtain ⟨hread, rfl, rfl⟩ : bytes = ((g.locals (some i)).fileRead.read g.shared.dataFile
        initialBufferSize).1 ∧ g.shared = s' ∧ { g.locals (some i) with
          fileRead := ((g.locals (some i)).fileRead.read g.shared.dataFile
            initialBufferSize).2 } = t₁ := by
      simpa [connectionCall] using hcall
    have hsent : sentTo i (es ++ [(some i, .call (.read fd (some bytes)))]) = sentTo i es := by
      simp [FileCall.sent, Call.sent]
    have hnil : c.unsent = [] := by simp [Conn.unsent, hpc]
    obtain ⟨hpos, hle⟩ := hoffset (by rw [hpc]; rfl)
    rw [hnil, List.append_nil] at hpos hinPlace
    have hstored := hstored (by rw [hpc]; rfl)
    replace hread : bytes = (g.shared.dataFile.drop (sentTo i es).length).take
        initialBufferSize := by
      rw [hread, OpenFile.read, hpos]
    have hoff : ((g.locals (some i)).fileRead.read g.shared.dataFile
        initialBufferSize).2.offset = (sentTo i es).length + bytes.length := by
      rw [OpenFile.read, hpos, hread]
    refine .of_connection rfl ?_ (by simp [Pc.unanswered]) (fun _ => hstored.append _) rfl
      fun _ => ?_
    · rw [hsent, Conn.unsent, if_pos rfl, hread]
      exact (hinPlace.read hrun hstored _).append _
    · rw [hsent, Conn.unsent, if_pos rfl, List.length_append]
      refine ⟨hoff, hoff.trans_le ?_⟩
      rw [hread, List.length_take, List.length_drop]
      omega
  · -- the answer is read from the start of the file
    obtain ⟨rfl, rfl⟩ : g.shared = s' ∧ { g.locals (some i) with fileRead := atStart } = t₁ := by
      simpa [connectionCall] using hcall
    have hsent : sentTo i (es ++ [(some i, .call (.openRead (some fd)))]) = [] := by
      simp [FileCall.sent, Call.sent, hunanswered (by rw [hpc]; rfl)]
    have hnil : c'.unsent = [] := by simp [Conn.unsent, hpc']
    refine .of_connection rfl ?_ (fun _ => hsent)
      (fun _ => (hstored (by rw [hpc]; rfl)).append _) (by rw [hpc']; rfl) fun _ => ?_
    · rw [hsent, hnil]
      exact (hinPlace.of_prefix List.nil_prefix).append _
    · rw [hsent, hnil]
      exact ⟨rfl, Nat.zero_le _⟩
  · -- the packet is stored
    have hsent : sentTo i (es ++ [(some i, .call (.write fd c.packet c.packet.length))]) = [] := by
      simp [FileCall.sent, Call.sent, hunanswered (by rw [hpc]; rfl)]
    have hnil : c'.unsent = [] := by simp [Conn.unsent, hpc']
    refine .of_connection rfl ?_ (fun _ => hsent)
      (fun _ => ⟨fd, c.packet, by simp⟩) (by rw [hpc']; rfl) fun h => ?_
    · rw [hsent, hnil]
      exact (hinPlace.of_prefix List.nil_prefix).append _
    · simp [hpc', Pc.answering] at h
  · have hsent : sentTo i (es ++ [(some i, .call call)]) = sentTo i es := by
      simp [FileCall.sent, hsent]
    have hnil : c'.unsent = [] := by
      rw [Conn.unsent, if_neg]
      intro hpc
      simp [hpc, Pc.answering] at hanswering'
    refine .of_connection rfl ?_ ?_ ?_ hseeking' fun h => ?_
    · rw [hsent, hnil, List.append_nil]
      exact (hinPlace.of_prefix (List.prefix_append _ _)).append _
    · intro h
      rw [hsent]
      exact hunanswered (hunanswered' h)
    · exact fun h => (hstored (hstored' h)).append _
    · rw [hanswering'] at h
      exact absurd h (by simp)

theorem answerInv_of_run (hrun : (lts C).run init es = some g) (i : Nat) :
    AnswerInv C i es g.shared (g.locals (some i)) := by
  refine Lts.run_induction (P := fun es g => AnswerInv C i es g.shared (g.locals (some i)))
    ?_ (fun es g e g' hes ih hstep => ?_) hrun
  · have hbody : ∀ c, (init.locals (some i)).body ≠ .connection c := by simp [init]
    refine ⟨fun k b hb => ?_, fun _ => rfl, fun c hc => absurd hc (hbody c),
      fun c hc => absurd hc (hbody c), fun c hc => absurd hc (hbody c),
      fun c hc => absurd hc (hbody c)⟩
    simp [sentTo, FileThread.unsent, init] at hb
  · obtain ⟨j, l⟩ := e
    obtain ⟨s, t, htrans, rfl⟩ := lts_step hstep
    have hlen := htrans.length_le (filesInv_of_run hes j)
    by_cases hj : j = some i
    · subst hj
      simp only [Function.update_self]
      cases htrans with
      | @create myClient hbody =>
        -- the thread has sent nothing before it was created
        have hnil : sentTo i es = [] := ih.fresh (by simp [hbody])
        have hsent : sentTo i (es ++ [(some i, .create myClient)]) = [] := by
          rw [sentTo_concat_self, hnil]
          rfl
        refine .of_connection rfl ?_ (fun _ => hsent) (by simp [Conn.start, Pc.stored]) rfl
          (by simp [Conn.start, Pc.answering])
        rw [hsent]
        exact (ih.inPlace.of_prefix List.nil_prefix).append _
      | call hhandler hbody hc hcall => exact ih.call hes hbody hc hcall hlen
      | sigalrm _ => exact ih.other (by simp [FileCall.sent]) rfl rfl hlen
      | handler _ _ => exact ih.other (by simp [FileCall.sent]) rfl rfl hlen
    · simp only [Function.update_of_ne (Ne.symm hj)]
      exact ih.other (sentTo_concat_of_ne hj _ _) rfl rfl hlen

/-- A connection that comes to the end of the file has sent as many bytes as the file has. -/
theorem length_sentTo_of_end (hrun : (lts C).run init es = some g) {fd : Nat}
    (hstep : (lts C).step g (some i, .call (.read fd (some []))) = some g') :
    (sentTo i es).length = g.shared.dataFile.length := by
  obtain ⟨s, t, htrans, -⟩ := lts_step hstep
  obtain ⟨-, -, -, -, hseeking, hoffset⟩ := answerInv_of_run hrun i
  cases htrans with
  | @call _ c c' s' t₁ hhandler hbody hc hcall =>
    have hpc : c.pc = .readBack := by
      cases hc with
      | seekReadEnd hpc _ =>
        have := hseeking _ hbody
        rw [hpc] at this
        exact absurd this (by simp [Pc.seeking])
      | readBackEnd hpc _ => exact hpc
      | seekRead _ _ hne _ => exact absurd rfl hne
      | readBack _ _ hne _ => exact absurd rfl hne
    obtain ⟨hpos, hle⟩ := hoffset _ hbody (by rw [hpc]; rfl)
    have hnil : (g.locals (some i)).unsent = [] := by
      rw [FileThread.unsent, hbody]
      simp [Conn.unsent, hpc]
    rw [hnil, List.append_nil] at hpos
    have hread : [] = ((g.locals (some i)).fileRead.read g.shared.dataFile
        initialBufferSize).1 := by
      by_contra hne
      simp [connectionCall, hne] at hcall
    have hlen := congrArg List.length hread
    simp only [OpenFile.read, List.length_take, List.length_drop, List.length_nil,
      initialBufferSize] at hlen
    omega

/-- A client that has sent a line, up to the mutex. -/
def sendsLine (i : Nat) (line : List UInt8) : List (Option Nat × FileCall) :=
  [(some i, .create 3), (some i, .call (.openWrite (some 4))), (some i, .call (.exitFlag false)),
    (some i, .call (.malloc true)), (some i, .call (.recv (some line) []))]

/-- The line `bcd` is stored over the line `a` while that one's client is answered, which gets
    the start of the one and the end of the other. -/
def mixedAnswer : List (Option Nat × FileCall) :=
  let calls : List (Option Nat × Call) :=
    [(some 0, .lock), (some 0, .write 4 [97, newline] 2), (some 0, .unlock),
      (some 0, .openRead (some 5)), (some 0, .read 5 (some [97, newline])), (some 1, .lock),
      (some 1, .write 4 [98, 99, 100, newline] 4), (some 0, .send [97, newline] true),
      (some 0, .read 5 (some [100, newline])), (some 0, .send [100, newline] true),
      (some 0, .read 5 (some []))]
  sendsLine 0 [97, newline] ++ sendsLine 1 [98, 99, 100, newline] ++
    calls.map fun c => (c.1, .call c.2)

/-- The connection has yet to come to its write. -/
def NotYet (t : FileThread) : Prop :=
  ∀ c, t.body = .connection c → c.pc = .openWrite ∨ c.pc.beforeWrite = true

/-- A connection that has yet to come to its write has stored nothing. -/
theorem not_storedBy (hrun : (lts C).run init es = some g) (hnot : NotYet (g.locals (some i))) :
    ¬ StoredBy i es := by
  refine Lts.run_induction (P := fun es g => NotYet (g.locals (some i)) → ¬ StoredBy i es)
    (fun _ => by simp [StoredBy]) (fun es g e g' hes ih hstep hnot => ?_) hrun hnot
  obtain ⟨j, l⟩ := e
  obtain ⟨s, t, htrans, rfl⟩ := lts_step hstep
  -- it had yet to come to it before, and this is not it
  obtain ⟨hbefore, hl⟩ : NotYet (g.locals (some i)) ∧ ∀ fd packet,
      (some i, FileCall.call (.write fd packet packet.length)) ≠ (j, l) := by
    by_cases hj : j = some i
    · subst hj
      simp only [Function.update_self] at hnot
      cases htrans with
      | create hbody => exact ⟨fun c hc => absurd (hc.symm.trans hbody) (by simp), by simp⟩
      | @call call c c' s' t₁ hhandler hbody hc hcall =>
        rcases hnot c' rfl with hpc' | hpc'
        · exact absurd hpc' (Conn.ne_openWrite hc)
        · rcases Conn.beforeWrite_step hc hpc' with ⟨fd, rfl⟩ | ⟨hpc, hno⟩
          · refine ⟨fun c₁ hc₁ => .inl ?_, by simp⟩
            obtain rfl := FileBody.connection.inj (hc₁.symm.trans hbody)
            cases hc
            assumption
          · refine ⟨fun c₁ hc₁ => .inr ?_, fun fd packet h => ?_⟩
            · obtain rfl := FileBody.connection.inj (hc₁.symm.trans hbody)
              exact hpc
            · exact hno fd packet _ (FileCall.call.inj (Prod.mk.inj h).2).symm
      | sigalrm _ => exact ⟨hnot, by simp⟩
      | handler _ _ => exact ⟨hnot, by simp⟩
    · simp only [Function.update_of_ne (Ne.symm hj)] at hnot
      exact ⟨hnot, fun fd packet h => hj (Prod.mk.inj h).1.symm⟩
  rintro ⟨fd, packet, hmem⟩
  rcases List.mem_append.mp hmem with hmem | hmem
  · exact ih hbefore ⟨fd, packet, hmem⟩
  · exact hl fd packet (List.mem_singleton.mp hmem)

/-- Steps that store nothing leave the data file as it is. -/
theorem dataFile_of_quiet (hrun : (lts C).run init es = some g)
    {fs : List (Option Nat × FileCall)} (hquiet : ∀ c ∈ fs, c.2.stored = [])
    (hrun' : (lts C).run g fs = some g') : g'.shared.dataFile = g.shared.dataFile := by
  refine Lts.run_induction (P := fun fs g' => (∀ c ∈ fs, c.2.stored = []) →
    g'.shared.dataFile = g.shared.dataFile) (fun _ => rfl)
    (fun fs m c m' hfs ih hstep hquiet => ?_) hrun' hquiet
  obtain ⟨j, l⟩ := c
  obtain ⟨s, t, htrans, rfl⟩ := lts_step hstep
  have hl : l.stored = [] := hquiet (j, l) (by simp)
  have hdata := htrans.dataFile
    (filesInv_of_run (Lts.run_append_eq_some.mpr ⟨g, hrun, hfs⟩) j)
  rw [← ih fun c hc => hquiet c (List.mem_append_left _ hc)]
  cases l <;> simpa [hl] using hdata

/-- The line `bcd` is stored, and a client has sent the line `a`. -/
def beforeShortLine : List (Option Nat × FileCall) :=
  let calls : List (Option Nat × Call) :=
    [(some 1, .lock), (some 1, .write 4 [98, 99, 100, newline] 4), (some 1, .unlock),
      (some 0, .lock)]
  sendsLine 1 [98, 99, 100, newline] ++ sendsLine 0 [97, newline] ++
    calls.map fun c => (c.1, .call c.2)

/-- The client is answered. -/
def afterShortLine : List (Option Nat × FileCall) :=
  [(some 0, .call .unlock), (some 0, .call (.openRead (some 5))),
    (some 0, .call (.read 5 (some [97, newline, 100, newline]))),
    (some 0, .call (.send [97, newline, 100, newline] true))]

end FileServer

end Aesd
