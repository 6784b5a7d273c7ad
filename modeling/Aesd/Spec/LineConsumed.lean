import Aesd.Spec.RecvRoom
import Aesd.Spec.DriverInvariant

/-!
# Lines and the packet buffer

A connection that comes back to `recv` should hold just the bytes it has not parsed yet: the
lines parsed so far and the packet are together what was received (`Conn.Consumed`). A line that
is written or obeyed ends the connection. A seek command with malformed parameters does not, and
stays in the buffer; `Conn.consumed_iff` says that this is the one case that fails.
-/

namespace Aesd

namespace Conn

variable {C : Libc} {c c' : Conn} {call : Call} {es : List Call} {myClient : Nat}

/-- The line that is parsed after a call: the first of the packet, once a `recv` has made it
    contain one. -/
def parsedLine (call : Call) (c : Conn) : List (List UInt8) :=
  if call.chunk?.isSome then (commandLines c.packet).head?.toList else []

/-- The lines parsed in a run. -/
def parsedLines (C : Libc) (myClient : Nat) (es : List Call) : List (List UInt8) :=
  (lts C).collect parsedLine (start myClient) es

/-- Wherever the run is before a `recv`, the thread is as one that has received nothing but the
    bytes not parsed yet: the parsed lines, each once, and these bytes are what was received. -/
def Consumed (C : Libc) (myClient : Nat) (es : List Call) : Prop :=
  ∀ pre post c, es = pre ++ post → (lts C).run (start myClient) pre = some c → c.pc = .recv →
    ∃ rest, (parsedLines C myClient pre).flatten ++ rest = (chunksOf pre).flatten ∧
      c = { start myClient with
        pc := .recv, gMyFileWrite := c.gMyFileWrite, packetBuffer := c.packetBuffer,
        packet := rest }

/-- The bytes received are a seek command, by its prefix, and `sscanf` does not find both
    parameters behind it. -/
def Malformed (C : Libc) (received beyond : List UInt8) : Prop :=
  newline ∈ received ∧ seekPrefix <+: received ++ beyond ∧
    scanSeek C ((received ++ beyond).drop seekPrefix.length) = none

/-- The thread does not go on after a malformed seek command. -/
def EndsMalformed (C : Libc) (es : List Call) : Prop :=
  ∀ pre chunk beyond post, es = pre ++ .recv (some chunk) beyond :: .exitFlag false :: post →
    ¬ Malformed C ((chunksOf pre).flatten ++ chunk) beyond

/-- The variables of a thread that is still receiving. -/
def Receiving (myClient : Nat) (c : Conn) : Prop :=
  c.pc.receiving = true →
    c.myClient = myClient ∧ c.myFileRead = none ∧ c.readerBuf = [] ∧ c.readFailed = false

theorem receiving_of_run (hrun : (lts C).run (start myClient) es = some c) :
    c.Receiving myClient := by
  refine Lts.run_invariant (I := Receiving myClient) (fun _ => ⟨rfl, rfl, rfl, rfl⟩)
    (fun c call c' ih hstep => ?_) hrun
  cases trans_of_step hstep with
  | recv hpc _ _ =>
    simpa [Receiving, received, Pc.receiving, hpc] using fun _ => ih (by rw [hpc]; rfl)
  | openWrite hpc => exact fun _ => ih (by rw [hpc]; rfl)
  | loop hpc => exact fun _ => ih (by rw [hpc]; rfl)
  | malloc hpc => exact fun _ => ih (by rw [hpc]; rfl)
  | realloc hpc => exact fun _ => ih (by rw [hpc]; rfl)
  | _ => intro h; first | (simp at h; done) | simp [Pc.receiving] at h

/-- Without a malformed command to go on after, no line is parsed as long as the thread
    receives. -/
def ConsumedInv (C : Libc) (myClient : Nat) (es : List Call) (c : Conn) : Prop :=
  EndsMalformed C es → c.pc.receiving = true →
    parsedLines C myClient es = [] ∨ c.pc = .loopTop ∧ ∃ pre chunk beyond,
      es = pre ++ [.recv (some chunk) beyond] ∧
      Malformed C ((chunksOf pre).flatten ++ chunk) beyond

theorem EndsMalformed.of_append {pre post : List Call} (h : EndsMalformed C (pre ++ post)) :
    EndsMalformed C pre :=
  fun pre' chunk beyond post' heq => h pre' chunk beyond (post' ++ post) (by rw [heq]; simp)

theorem parsedLines_concat (hrun : (lts C).run (start myClient) es = some c)
    (hstep : (lts C).step c call = some c') :
    parsedLines C myClient (es ++ [call]) =
      parsedLines C myClient es ++ parsedLine call c' :=
  Lts.collect_concat hrun hstep

/-- A packet with a newline has a line to parse. -/
theorem parsedLine_ne_nil (chunk beyond : List UInt8) (hnl : newline ∈ c.packet) :
    (parsedLine (.recv (some chunk) beyond) c).flatten ≠ [] := by
  obtain ⟨body, s, more, hpacket, hs, hbody⟩ :=
    (Lines.exists_first_line isNewline c.packet).resolve_left fun hno => by
      simpa using hno newline hnl
  rw [parsedLine, if_pos (show (Call.recv (some chunk) beyond).chunk?.isSome = true from rfl),
    hpacket, commandLines, Lines.lines_body_append _ hbody hs]
  simp

theorem ConsumedInv.step (ih : ConsumedInv C myClient es c)
    (hrun : (lts C).run (start myClient) es = some c) (hstep : (lts C).step c call = some c') :
    ConsumedInv C myClient (es ++ [call]) c' := by
  intro hends
  have ih := ih hends.of_append
  rw [parsedLines_concat hrun hstep]
  cases trans_of_step hstep with
  | openWrite hpc =>
    rw [hpc] at ih
    have ih : parsedLines C myClient es = [] := by simpa using ih rfl
    exact fun _ => .inl (by rw [ih]; rfl)
  | loop hpc =>
    rw [hpc] at ih
    refine fun _ => .inl ?_
    rcases ih rfl with ih | ⟨-, pre, chunk, beyond, rfl, hmalformed⟩
    · rw [ih]; rfl
    · exact absurd hmalformed (hends pre chunk beyond [] (by simp))
  | malloc hpc =>
    rw [hpc] at ih
    have ih : parsedLines C myClient es = [] := by simpa using ih rfl
    exact fun _ => .inl (by rw [ih]; rfl)
  | @recv chunk beyond hpc _ _ =>
    rw [hpc] at ih
    have ih : parsedLines C myClient es = [] := by simpa using ih rfl
    have hpacket : c.packet = (chunksOf es).flatten := by
      have hinv := RecvInv.of_run hrun
      simp only [RecvInv, hpc] at hinv
      exact hinv.1
    rcases c.received_cases C chunk beyond with
      ⟨hno, hc⟩ | ⟨-, -, hc⟩ | ⟨hnl, hprefix, hscan, hc⟩ | ⟨seekto, -, -, -, hc⟩
    all_goals rw [hc]
    · have hlines : commandLines (c.packet ++ chunk) = [] :=
        Lines.lines_eq_nil fun x hx => beq_eq_false_iff_ne.mpr fun heq => hno (heq ▸ hx)
      refine fun _ => .inl ?_
      simp only [ih, parsedLine, hlines]
      rfl
    · simp [Pc.receiving]
    · exact fun _ => .inr ⟨rfl, es, chunk, beyond, rfl, hpacket ▸ ⟨hnl, hprefix, hscan⟩⟩
    · simp [Pc.receiving]
  | realloc hpc =>
    rw [hpc] at ih
    have ih : parsedLines C myClient es = [] := by simpa using ih rfl
    exact fun _ => .inl (by rw [ih]; rfl)
  | _ => intro h; first | (simp at h; done) | simp [Pc.receiving] at h

theorem consumedInv_of_run (hrun : (lts C).run (start myClient) es = some c) :
    ConsumedInv C myClient es c :=
  Lts.run_induction (P := ConsumedInv C myClient) (fun _ _ => .inl rfl)
    (fun _ _ _ _ hrun ih hstep => ih.step hrun hstep) hrun

/-- In every run, wherever the thread is before a `recv` its buffer holds what was received
    without the lines parsed so far, if and only if no malformed seek command is received while
    the exit flag is not set. -/
theorem consumed_iff (hrun : (lts C).run (start myClient) es = some c) :
    Consumed C myClient es ↔ EndsMalformed C es := by
  constructor
  · rintro h pre chunk beyond post rfl ⟨hnl, hprefix, hscan⟩
    -- the state in which the thread comes back to `recv`
    obtain ⟨c₀, hrun₀, hrest⟩ := Lts.run_append_eq_some.mp hrun
    obtain ⟨c₁, hstep₁, hrest⟩ := Lts.run_cons_eq_some.mp hrest
    obtain ⟨c₂, hstep₂, -⟩ := Lts.run_cons_eq_some.mp hrest
    have hrun₁ := Lts.run_concat_eq_some.mpr ⟨c₀, hrun₀, hstep₁⟩
    have hrun₂ := Lts.run_concat_eq_some.mpr ⟨c₁, hrun₁, hstep₂⟩
    have hpc₁ : c₁.pc = .loopTop := by
      cases trans_of_step hstep₂
      assumption
    have hinv := RecvInv.of_run hrun₁
    simp only [RecvInv, hpc₁, chunksOf_concat, Call.chunk?, Option.toList_some] at hinv
    obtain ⟨hpacket, hbuffer⟩ := hinv
    rw [if_neg (by simp)] at hbuffer
    have hc₂ : c₂ = { c₁ with pc := .recv } := by
      cases trans_of_step hstep₂ with
      | loop _ => rw [hbuffer]; rfl
    obtain ⟨rest, hflat, hrest⟩ := h _ post c₂ (by simp) hrun₂ (by rw [hc₂])
    have hc₂packet : c₂.packet = rest := by rw [hrest]
    rw [hc₂] at hc₂packet
    rw [parsedLines_concat hrun₁ hstep₂, parsedLines_concat hrun₀ hstep₁, chunksOf_concat,
      chunksOf_concat, ← hc₂packet] at hflat
    have hlen := congrArg List.length hflat
    have hline := parsedLine_ne_nil (c := c₁) chunk beyond
      (by rw [hpacket]; simpa using hnl)
    have hpos := List.length_pos_iff.mpr hline
    simp only [Call.chunk?, Option.toList_some, Option.toList_none, List.append_nil,
      List.flatten_append, List.length_append, hpacket] at hlen
    omega
  · rintro h pre post c rfl hpre hpc
    have hparsed : parsedLines C myClient pre = [] := by
      simpa [hpc] using consumedInv_of_run hpre h.of_append (by rw [hpc]; rfl)
    have hinv := RecvInv.of_run hpre
    simp only [RecvInv, hpc] at hinv
    obtain ⟨hclient, hread, hreader, hfailed⟩ := receiving_of_run hpre (by rw [hpc]; rfl)
    refine ⟨c.packet, by rw [hparsed, hinv.1]; rfl, ?_⟩
    obtain ⟨⟩ := c
    simp_all [start]

/-- The line `AESDCHAR_IOCSEEKTO:x`. -/
def rejectedLine : List UInt8 := seekPrefix ++ [120, newline]

/-- A client that sends it, and the line `a` when the server is back at `recv`. -/
def lineAfterRejected : List Call :=
  [.openWrite (some 4), .exitFlag false, .malloc true, .recv (some rejectedLine) [],
    .exitFlag false, .recv (some [97, newline]) []]

theorem consumed_iff_lineAfterRejected :
    ((lts .glibc).run (start 3) lineAfterRejected).isSome ∧
      (Consumed .glibc 3 lineAfterRejected ↔ EndsMalformed .glibc lineAfterRejected) :=
  ⟨by decide, consumed_iff (c := ((lts .glibc).run (start 3) lineAfterRejected).get (by decide))
    (Option.some_get _).symm⟩

theorem rejectedLine_parsed_twice :
    parsedLines .glibc 3 lineAfterRejected = [rejectedLine, rejectedLine] ∧
      ¬ Consumed .glibc 3 lineAfterRejected := by
  refine ⟨by decide, fun h => ?_⟩
  obtain ⟨rest, hflat, hc⟩ := h (lineAfterRejected.take 5) (lineAfterRejected.drop 5)
    (((lts .glibc).run (start 3) (lineAfterRejected.take 5)).get (by decide)) rfl
    (Option.some_get _).symm (by decide)
  have hrest : rest = rejectedLine := (congrArg Conn.packet hc).symm.trans (by decide)
  rw [hrest] at hflat
  exact absurd hflat (by decide)

end Conn

end Aesd
