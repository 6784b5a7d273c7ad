import Aesd.Spec.DeviceFiles
import Aesd.Spec.LogDevice
import Aesd.Spec.PacketIsolation

/-!
# Every packet once

The server appends each client's packet to the driver's log, in one piece and at most once, in
the order in which the threads get through `g_write_mutex`. `DeviceServer.packets_exactly_once`
says so for every run, with writes that fail among them: a packet whose write returned its count
is in the log, one whose write failed may be there, and nothing else is.
-/

namespace Aesd

namespace LogDevice

variable {K : Kernel} {a b : LogDevice}

/-- Only writes change the log. -/
theorem Step.of_not_write {c : Op × Ret} (h : Step K a c b)
    (hno : ∀ fd data out, c.1 ≠ .write fd data out) : b.log = a.log ∧ b.stored = a.stored := by
  cases h with
  | write _ _ => exact absurd rfl (hno _ _ _)
  | writeCut _ _ _ => exact absurd rfl (hno _ _ _)
  | _ => exact ⟨rfl, rfl⟩

/-- A write takes all of its data or nothing; and where it returns its count, all lines are
    stored. -/
theorem Step.of_write {fd : Nat} {data : List UInt8} {out : WriteOutcome} {r : Ret}
    (h : Step K a (.write fd data out, r) b) :
    (b.log = a.log ++ data ∧ (r.val = data.length → b.stored = (commandLines b.log).length)) ∨
      r.val < 0 ∧ b.log = a.log ∧ b.stored = a.stored := by
  cases h with
  | write _ _ => exact .inl ⟨rfl, fun _ => rfl⟩
  | writeCut _ _ _ =>
    refine .inl ⟨rfl, fun hlen => ?_⟩
    simp only at hlen
    omega
  | closed _ _ | writeRefused _ | writeOutside _ _ =>
    exact .inr ⟨by simp [ebadf, efault], rfl, rfl⟩

end LogDevice

namespace DeviceServer

variable {K : Kernel} {C : Libc} {i : Nat} {es : List (Nat × DeviceCall)}
  {g g' : Threads Nat DeviceState (Option Conn)} {s s' : DeviceState} {a : LogDevice}

/-- Everything that connection `i` has received. -/
def received (i : Nat) (es : List (Nat × DeviceCall)) : List UInt8 :=
  (chunksOf (callsOf i es)).flatten

/-- The log after a run, in which the packets of `writers` follow one another. -/
structure Appended (es : List (Nat × DeviceCall)) (d : Driver) (writers : List Nat)
    (a : LogDevice) : Prop where
  represents : d.Represents a
  nodup : writers.Nodup
  log_eq : a.log = writers.flatMap fun i => received i es
  written : ∀ i ∈ writers, ∃ fd ret, .write fd (received i es) ret ∈ callsOf i es
  hasNewline : ∀ i ∈ writers, newline ∈ received i es
  complete : ∀ i fd bytes ret, .write fd bytes ret ∈ callsOf i es → ret = bytes.length → i ∈ writers
  stored_eq : AllWritten es → a.stored = (commandLines a.log).length

/-! ### What a step adds -/

theorem received_concat_self (i : Nat) (es : List (Nat × DeviceCall)) (call : Call)
    (out : DeviceOutcome) :
    received i (es ++ [(i, .call call out)]) = received i es ++ call.chunk?.toList.flatten := by
  rw [received, callsOf_concat_self]
  simp [DeviceCall.call?, chunksOf_concat, received]

theorem received_concat_of_ne {j : Nat} (h : j ≠ i) (es : List (Nat × DeviceCall))
    (l : DeviceCall) : received i (es ++ [(j, l)]) = received i es := by
  rw [received, callsOf_concat_of_ne h, received]

/-- A thread that receives or writes has not written before, and writes all it has received. -/
theorem before_write {c c' : Conn} {call : Call} (hrun : (lts K C).run init es = some g)
    (hc : g.locals i = some c) (htrans : Conn.Trans C c call c')
    (hcall : (∃ fd bytes ret, call = .write fd bytes ret) ∨ call.chunk?.isSome) :
    (∀ fd bytes ret, Call.write fd bytes ret ∉ callsOf i es) ∧
      ∀ fd bytes ret, call = .write fd bytes ret →
        c.gMyFileWrite = some fd ∧ c.pc = .write ∧ bytes = received i es ∧ newline ∈ bytes := by
  rcases conn_of_run hrun i with ⟨hnone, -⟩ | ⟨c₀, myClient, hc₀, hconn⟩
  · rw [hc] at hnone
    simp at hnone
  obtain rfl := Option.some.inj (hc₀.symm.trans hc)
  have hpc : c₀.pc = .recv ∨ c₀.pc = .write := by
    cases htrans <;> simp_all [Call.chunk?]
  have hmay : c₀.MayWrite := by
    rcases hpc with hpc | hpc <;> simp [Conn.MayWrite, hpc, Pc.receiving]
  have hun := Conn.unwritten_of_run hconn hmay
  refine ⟨hun.noWrite, ?_⟩
  rintro fd bytes ret rfl
  cases htrans with
  | write hat hfd => exact ⟨hfd, hat, hun.packet, hun.hasNewline (.inr hat)⟩
  | writeFailed hat hfd _ => exact ⟨hfd, hat, hun.packet, hun.hasNewline (.inr hat)⟩

/-- A call that is no write leaves the log as it is. -/
theorem represents_of_deviceCall {call : Call} {out : DeviceOutcome} (hinv : s.driver.Inv K)
    (ha : s.driver.Represents a) (hno : ∀ fd bytes ret, call ≠ .write fd bytes ret)
    (h : deviceCall K i s out call = some s') :
    ∃ b, s'.driver.Represents b ∧ b.log = a.log ∧ b.stored = a.stored := by
  cases effect_of_deviceCall h with
  | @driver _ op r d hop _ hstep _ =>
    obtain ⟨b, hS, hb⟩ := hinv.step_represents ha hstep
    refine ⟨b, hb, hS.of_not_write ?_⟩
    rintro fd data w rfl
    obtain ⟨ret, rfl⟩ := exists_write_of_opOf hop
    exact hno fd data ret rfl
  | closeSocket _ => exact ⟨a, ha, rfl, rfl⟩
  | lock _ => exact ⟨a, ha, rfl, rfl⟩
  | unlock _ => exact ⟨a, ha, rfl, rfl⟩
  | other _ _ _ => exact ⟨a, ha, rfl, rfl⟩

/-- A write to the device takes all of the packet or nothing. -/
theorem represents_of_write {fd : Nat} {bytes : List UInt8} {ret : Int} {out : DeviceOutcome}
    (hinv : s.driver.Inv K) (ha : s.driver.Represents a) (hsocket : s.sockets fd = false)
    (h : deviceCall K i s out (.write fd bytes ret) = some s') :
    ∃ b, s'.driver.Represents b ∧
      ((b.log = a.log ++ bytes ∧ (ret = bytes.length → b.stored = (commandLines b.log).length)) ∨
        ret < 0 ∧ b.log = a.log ∧ b.stored = a.stored) := by
  rcases DeviceState.fileCall_eq_some.mp h with ⟨hsocket', -⟩ | ⟨-, h⟩
  · rw [hsocket] at hsocket'
    simp at hsocket'
  · obtain ⟨r, d, hstep, hanswer, rfl⟩ := DeviceState.driverCall_eq_some.mp h
    obtain rfl : r.val = ret := of_decide_eq_true hanswer
    obtain ⟨b, hS, hb⟩ := hinv.step_represents ha hstep
    exact ⟨b, hb, hS.of_write⟩

namespace Appended

variable {d d' : Driver} {writers : List Nat}

/-- A step that adds nothing to the log. -/
theorem of_quiet (h : Appended es d writers a) {c : Nat × DeviceCall} {b : LogDevice}
    (hb : d'.Represents b) (hlog : b.log = a.log) (hstored : b.stored = a.stored)
    (hreceived : ∀ j ∈ writers, received j (es ++ [c]) = received j es)
    (hwrites : ∀ j fd bytes ret, .write fd bytes ret ∈ callsOf j (es ++ [c]) →
      .write fd bytes ret ∈ callsOf j es ∨ ret < 0) :
    Appended (es ++ [c]) d' writers b where
  represents := hb
  nodup := h.nodup
  log_eq := by
    rw [hlog, h.log_eq]
    exact List.flatMap_congr fun j hj => (hreceived j hj).symm
  written := by
    intro j hj
    obtain ⟨fd, ret, hmem⟩ := h.written j hj
    exact ⟨fd, ret, hreceived j hj ▸ callsOf_subset j es c hmem⟩
  hasNewline := fun j hj => hreceived j hj ▸ h.hasNewline j hj
  complete := by
    intro j fd bytes ret hmem hret
    rcases hwrites j fd bytes ret hmem with hmem | hneg
    · exact h.complete j fd bytes ret hmem hret
    · omega
  stored_eq := by
    intro hall
    rw [hlog, hstored]
    exact h.stored_eq fun c hc => hall c (List.mem_append_left _ hc)

/-- A write that takes the packet of a connection that has not written yet. -/
theorem of_write (h : Appended es d writers a) {fd : Nat} {ret : Int} {out : DeviceOutcome}
    {b : LogDevice} (hb : d'.Represents b) (hlog : b.log = a.log ++ received i es)
    (hstored : ret = (received i es).length → b.stored = (commandLines b.log).length)
    (hnew : i ∉ writers) (hnewline : newline ∈ received i es) :
    Appended (es ++ [(i, .call (.write fd (received i es) ret) out)]) d' (writers ++ [i]) b := by
  have hsame : ∀ j,
      received j (es ++ [(i, .call (.write fd (received i es) ret) out)]) = received j es := by
    intro j
    by_cases hji : i = j
    · subst hji
      rw [received_concat_self]
      simp [Call.chunk?]
    · exact received_concat_of_ne hji es _
  have hmem : ∀ j fd' bytes ret', .write fd' bytes ret' ∈
      callsOf j (es ++ [(i, .call (.write fd (received i es) ret) out)]) →
      .write fd' bytes ret' ∈ callsOf j es ∨ j = i := by
    intro j fd' bytes ret' hmem
    by_cases hji : i = j
    · exact .inr hji.symm
    · rw [callsOf_concat_of_ne hji] at hmem
      exact .inl hmem
  refine ⟨hb, ?_, ?_, ?_, ?_, ?_, ?_⟩
  · rw [List.nodup_append]
    exact ⟨h.nodup, List.nodup_singleton i, fun x hx y hy hxy =>
      hnew (List.mem_singleton.mp hy ▸ hxy ▸ hx)⟩
  · rw [hlog, h.log_eq]
    simp only [hsame, List.flatMap_append, List.flatMap_singleton]
  · intro j hj
    rw [hsame]
    rcases List.mem_append.mp hj with hj | hj
    · obtain ⟨fd', ret', hmem'⟩ := h.written j hj
      exact ⟨fd', ret', callsOf_subset j es _ hmem'⟩
    · obtain rfl := List.mem_singleton.mp hj
      refine ⟨fd, ret, ?_⟩
      rw [callsOf_concat_self]
      exact List.mem_append_right _ (List.mem_singleton_self _)
  · intro j hj
    rw [hsame]
    rcases List.mem_append.mp hj with hj | hj
    · exact h.hasNewline j hj
    · exact List.mem_singleton.mp hj ▸ hnewline
  · intro j fd' bytes ret' hmem' hret
    rcases hmem j fd' bytes ret' hmem' with hmem' | rfl
    · exact List.mem_append_left _ (h.complete j fd' bytes ret' hmem' hret)
    · exact List.mem_append_right _ (List.mem_singleton_self _)
  · intro hall
    exact hstored (hall (i, .call (.write fd (received i es) ret) out) (by simp) _ _ rfl fd _ ret rfl)

end Appended

/-! ### Runs -/

theorem appended_of_run (hrun : (lts K C).run init es = some g)
    (hunused : (lts K C).Along ClosesUnused init es) :
    ∃ writers a, Appended es g.shared.driver writers a := by
  refine Lts.run_induction (P := fun es g => (lts K C).Along ClosesUnused init es →
    ∃ writers a, Appended es g.shared.driver writers a) (fun _ => ?_)
    (fun es g c g' hes ih hstep hunused => ?_) hrun hunused
  · refine ⟨[], .init, .init, List.nodup_nil, rfl, by simp, by simp, ?_, fun _ => rfl⟩
    intro i fd bytes ret hmem
    simp [callsOf] at hmem
  obtain ⟨hbefore, -⟩ := Lts.along_concat.mp hunused
  obtain ⟨writers, a, h⟩ := ih hbefore
  have hinv := driverInv_of_run hes
  obtain ⟨i, l⟩ := c
  obtain ⟨s', t, htrans, rfl⟩ := lts_step hstep
  cases htrans with
  | accept _ _ =>
    refine ⟨writers, a, h.of_quiet h.represents rfl rfl (fun j _ => ?_) ?_⟩
    · by_cases hji : i = j
      · subst hji
        simp [received, callsOf_concat_self, DeviceCall.call?]
      · exact received_concat_of_ne hji es _
    · intro j fd bytes ret hmem
      by_cases hji : i = j
      · subst hji
        exact .inl (by simpa [callsOf_concat_self, DeviceCall.call?] using hmem)
      · rw [callsOf_concat_of_ne hji] at hmem
        exact .inl hmem
  | @call call out c c' _ hc htrans hcall =>
    -- what the others have received and written stays
    have hother : ∀ j, i ≠ j → received j (es ++ [(i, .call call out)]) = received j es ∧
        callsOf j (es ++ [(i, .call call out)]) = callsOf j es :=
      fun j hji => ⟨received_concat_of_ne hji es _, callsOf_concat_of_ne hji es _⟩
    by_cases hwrite : ∃ fd bytes ret, call = .write fd bytes ret
    · obtain ⟨fd, bytes, ret, rfl⟩ := hwrite
      obtain ⟨hfirst, hbytes⟩ := before_write hes hc htrans (.inl ⟨fd, bytes, ret, rfl⟩)
      obtain ⟨hfd, hpc, rfl, hnewline⟩ := hbytes fd bytes ret rfl
      have hfile : fileOf g i = some fd := by
        rw [fileOf, hc]
        simp [Conn.file?, hpc, hfd]
      have hsocket := ((filesInv_of_run hes hbefore).file i fd hfile).1
      obtain ⟨b, hb, ⟨hlog, hstored⟩ | ⟨hneg, hlog, hstored⟩⟩ :=
        represents_of_write hinv h.represents hsocket hcall
      · have hnew : i ∉ writers := by
          intro hi
          obtain ⟨fd', ret', hmem⟩ := h.written i hi
          exact hfirst fd' _ ret' hmem
        exact ⟨writers ++ [i], b, h.of_write hb hlog hstored hnew hnewline⟩
      · refine ⟨writers, b, h.of_quiet hb hlog hstored (fun j _ => ?_) ?_⟩
        · by_cases hji : i = j
          · subst hji
            rw [received_concat_self]
            simp [Call.chunk?]
          · exact (hother j hji).1
        · intro j fd' bytes' ret' hmem
          by_cases hji : i = j
          · subst hji
            simp only [callsOf_concat_self, DeviceCall.call?, Option.toList_some, List.mem_append,
              List.mem_singleton, Call.write.injEq] at hmem
            rcases hmem with hmem | ⟨-, -, rfl⟩
            · exact .inl hmem
            · exact .inr hneg
          · rw [(hother j hji).2] at hmem
            exact .inl hmem
    · have hno : ∀ fd bytes ret, call ≠ .write fd bytes ret :=
        fun fd bytes ret heq => hwrite ⟨fd, bytes, ret, heq⟩
      obtain ⟨b, hb, hlog, hstored⟩ := represents_of_deviceCall hinv h.represents hno hcall
      refine ⟨writers, b, h.of_quiet hb hlog hstored (fun j hj => ?_) ?_⟩
      · by_cases hji : i = j
        · subst hji
          cases hchunk : call.chunk? with
          | none => rw [received_concat_self, hchunk, Option.toList_none, List.flatten_nil,
              List.append_nil]
          | some chunk =>
            -- a thread that still receives has not written
            obtain ⟨fd, ret, hmem⟩ := h.written i hj
            obtain ⟨hfirst, -⟩ := before_write hes hc htrans (.inr (by rw [hchunk]; rfl))
            exact absurd hmem (hfirst fd _ ret)
        · exact (hother j hji).1
      · intro j fd bytes ret hmem
        by_cases hji : i = j
        · subst hji
          simp only [callsOf_concat_self, DeviceCall.call?, Option.toList_some, List.mem_append,
            List.mem_singleton] at hmem
          exact .inl (hmem.resolve_right fun heq => hno fd bytes ret heq.symm)
        · rw [(hother j hji).2] at hmem
          exact .inl hmem

theorem lines_flatMap {writers : List Nat} {packet : Nat → List UInt8}
    (h : ∀ i ∈ writers, Lines.IsLine isNewline (packet i)) :
    commandLines (writers.flatMap packet) = writers.map packet := by
  have hlines : ∀ l ∈ writers.map packet, Lines.IsLine isNewline l := by
    intro l hl
    obtain ⟨i, hi, rfl⟩ := List.mem_map.mp hl
    exact h i hi
  have hsplit := Lines.split_flatten_append hlines []
  rw [List.append_nil, ← List.flatMap_def] at hsplit
  rw [commandLines, Lines.lines, hsplit, Lines.lines_nil, List.append_nil]

/-- Two clients have sent a line each when the second one gets the mutex first. -/
def overtaking : List (Nat × DeviceCall) :=
  (packetCalls 0 3 [97, newline]).take 5 ++ packetCalls 1 5 [98, newline] ++
    (packetCalls 0 3 [97, newline]).drop 5

end DeviceServer

end Aesd
