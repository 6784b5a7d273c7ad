import Aesd.ForStd.List
import Aesd.Spec.TimestampDeadlock

/-!
# What becomes of the data file

The handler opens the data file with `O_APPEND`, a connection without. So a timestamp goes
behind what is there, and a packet over it, from the first byte on (`Trans.dataFile`).
`FileServer.data_kept_iff` says when nothing is lost nevertheless.
-/

namespace Aesd

/-- The bytes that a call stores in the data file. -/
def FileCall.stored : FileCall → List UInt8
  | .call (.write _ bytes ret) => bytes.take ret.toNat
  | .handler (.write _ bytes ret) => bytes.take ret.toNat
  | _ => []

/-- A connection may still come to its write. -/
def Pc.beforeWrite : Pc → Bool
  | .loopTop | .malloc | .recv | .realloc | .ioctl _ | .lock | .write => true
  | _ => false

namespace Conn

variable {C : Libc} {c c' : Conn} {call : Call}

@[simp] theorem beforeWrite_tail (c : Conn) : c.tail.pc.beforeWrite = false := by
  rcases c.tail_cases with ⟨-, htail⟩ | ⟨-, htail⟩ <;> rw [htail] <;> rfl

@[simp] theorem beforeWrite_freePacket (c : Conn) : c.freePacket.pc.beforeWrite = false :=
  beforeWrite_tail _

/-- Who may come to the write is there since the file was opened. -/
theorem beforeWrite_step (h : Trans C c call c') (hpc' : c'.pc.beforeWrite = true) :
    (∃ fd, call = .openWrite (some fd)) ∨
      c.pc.beforeWrite = true ∧ ∀ fd bytes ret, call ≠ .write fd bytes ret := by
  cases h with
  | openWrite _ => exact .inl ⟨_, rfl⟩
  | loop hpc => exact .inr ⟨by rw [hpc]; rfl, nofun⟩
  | malloc hpc => exact .inr ⟨by rw [hpc]; rfl, nofun⟩
  | recv hpc _ _ => exact .inr ⟨by rw [hpc]; rfl, nofun⟩
  | realloc hpc => exact .inr ⟨by rw [hpc]; rfl, nofun⟩
  | lock hpc => exact .inr ⟨by rw [hpc]; rfl, nofun⟩
  | _ => first | (simp at hpc'; done) | simp [Pc.beforeWrite] at hpc'

end Conn

namespace FileServer

variable {C : Libc} {i : Option Nat} {s s' : FileState} {t t' : FileThread} {l : FileCall}
  {es : List (Option Nat × FileCall)} {g g' : Threads (Option Nat) FileState FileThread}

/-- The bytes stored in a run, one write after the other. -/
def storedIn (es : List (Option Nat × FileCall)) : List UInt8 := es.flatMap fun c => c.2.stored

/-- A connection stores its packet only if nothing was stored before. -/
def FirstWriter (es : List (Option Nat × FileCall)) : Prop :=
  ∀ pre c post, es = pre ++ c :: post →
    ∀ call, c.2 = .call call → c.2.stored ≠ [] → storedIn pre = []

/-- The files of a thread that is about to write: a connection's at its start, the handler's
    appending. -/
structure FilesInv (t : FileThread) : Prop where
  connection : ∀ c, t.body = .connection c → c.pc.beforeWrite = true → t.fileWrite = atStart
  handler : ∀ h fd, t.handler = some h → h.pc = .write fd → h.file = appending

theorem writeFile_dataFile {f f' : OpenFile} {bytes : List UInt8} {ret : Int}
    (h : writeFile s f bytes ret = some (s', f')) :
    s'.dataFile = (f.write s.dataFile (bytes.take ret.toNat)).1 := by
  obtain ⟨-, h⟩ := Option.ite_none_right_eq_some.mp h
  obtain ⟨rfl, -⟩ := Prod.mk.inj (Option.some.inj h)
  rfl

/-- What a connection's call does to the file it writes to and to the data file. -/
theorem connectionCall_files {call : Call} (h : connectionCall i s t call = some (s', t')) :
    (∃ fd bytes ret, call = .write fd bytes ret ∧
        s'.dataFile = (t.fileWrite.write s.dataFile (bytes.take ret.toNat)).1) ∨
      s'.dataFile = s.dataFile ∧ (FileCall.call call).stored = [] ∧
        (t'.fileWrite = atStart ∨
          (∀ fd, call ≠ .openWrite (some fd)) ∧ t'.fileWrite = t.fileWrite) := by
  unfold connectionCall at h
  split at h
  case h_1 =>
    obtain ⟨rfl, rfl⟩ := Prod.mk.inj (Option.some.inj h)
    exact .inr ⟨rfl, rfl, .inl rfl⟩
  case h_2 =>
    obtain ⟨rfl, rfl⟩ := Prod.mk.inj (Option.some.inj h)
    exact .inr ⟨rfl, rfl, .inr ⟨nofun, rfl⟩⟩
  case h_3 =>
    obtain ⟨-, h⟩ := Option.ite_none_left_eq_some.mp h
    obtain ⟨rfl, rfl⟩ := Prod.mk.inj (Option.some.inj h)
    exact .inr ⟨rfl, rfl, .inr ⟨nofun, rfl⟩⟩
  case h_4 =>
    obtain ⟨m, -, h⟩ := Option.bind_eq_some_iff.mp h
    obtain ⟨rfl, rfl⟩ := Prod.mk.inj (Option.some.inj h)
    exact .inr ⟨rfl, rfl, .inr ⟨nofun, rfl⟩⟩
  case h_5 =>
    obtain ⟨m, -, h⟩ := Option.bind_eq_some_iff.mp h
    obtain ⟨rfl, rfl⟩ := Prod.mk.inj (Option.some.inj h)
    exact .inr ⟨rfl, rfl, .inr ⟨nofun, rfl⟩⟩
  case h_6 fd bytes ret =>
    obtain ⟨⟨s₁, f⟩, hwrite, h⟩ := Option.bind_eq_some_iff.mp h
    obtain ⟨rfl, rfl⟩ := Prod.mk.inj (Option.some.inj h)
    exact .inl ⟨fd, bytes, ret, rfl, writeFile_dataFile hwrite⟩
  case h_7 =>
    obtain ⟨-, h⟩ := Option.ite_none_right_eq_some.mp h
    obtain ⟨rfl, rfl⟩ := Prod.mk.inj (Option.some.inj h)
    exact .inr ⟨rfl, rfl, .inr ⟨nofun, rfl⟩⟩
  case h_8 hopen _ _ _ _ hwrite _ =>
    obtain ⟨rfl, rfl⟩ := Prod.mk.inj (Option.some.inj h)
    refine .inr ⟨rfl, ?_, .inr ⟨hopen, rfl⟩⟩
    cases call with
    | write fd bytes ret => exact absurd rfl (hwrite fd bytes ret)
    | _ => rfl

/-- What a handler's call does to its file and to the data file. -/
theorem insertTimestamp_files {h : InsertTimestamp} {h' : Option InsertTimestamp} {call : Call}
    (hcall : insertTimestamp i s h call = some (s', h')) :
    ((∃ fd bytes ret, h.pc = .write fd ∧ call = .write fd bytes ret ∧
        s'.dataFile = (h.file.write s.dataFile (bytes.take ret.toNat)).1) ∨
      s'.dataFile = s.dataFile ∧ (FileCall.handler call).stored = []) ∧
    ∀ h₁ fd, h' = some h₁ → h₁.pc = .write fd → h₁.file = appending := by
  unfold insertTimestamp at hcall
  split at hcall
  case h_1 =>
    obtain ⟨m, -, hcall⟩ := Option.bind_eq_some_iff.mp hcall
    obtain ⟨rfl, rfl⟩ := Prod.mk.inj (Option.some.inj hcall)
    refine ⟨.inr ⟨rfl, rfl⟩, ?_⟩
    rintro h₁ fd hh hpc
    obtain rfl := Option.some.inj hh
    exact nomatch hpc
  case h_2 =>
    obtain ⟨rfl, rfl⟩ := Prod.mk.inj (Option.some.inj hcall)
    refine ⟨.inr ⟨rfl, rfl⟩, ?_⟩
    rintro h₁ fd hh hpc
    obtain rfl := Option.some.inj hh
    exact nomatch hpc
  case h_3 =>
    obtain ⟨rfl, rfl⟩ := Prod.mk.inj (Option.some.inj hcall)
    exact ⟨.inr ⟨rfl, rfl⟩, by rintro h₁ fd hh -; obtain rfl := Option.some.inj hh; rfl⟩
  case h_4 fd fd' bytes ret hpc =>
    obtain ⟨⟨rfl, -⟩, hcall⟩ := Option.ite_none_right_eq_some.mp hcall
    obtain ⟨⟨s₁, f⟩, hwrite, hcall⟩ := Option.bind_eq_some_iff.mp hcall
    obtain ⟨rfl, rfl⟩ := Prod.mk.inj (Option.some.inj hcall)
    exact ⟨.inl ⟨_, bytes, ret, hpc, rfl, writeFile_dataFile hwrite⟩,
      by rintro h₁ fd hh hpc; obtain rfl := Option.some.inj hh; exact nomatch hpc⟩
  case h_5 =>
    obtain ⟨-, hcall⟩ := Option.ite_none_right_eq_some.mp hcall
    obtain ⟨rfl, rfl⟩ := Prod.mk.inj (Option.some.inj hcall)
    refine ⟨.inr ⟨rfl, rfl⟩, ?_⟩
    rintro h₁ fd hh hpc
    obtain rfl := Option.some.inj hh
    exact nomatch hpc
  case h_6 =>
    obtain ⟨m, -, hcall⟩ := Option.bind_eq_some_iff.mp hcall
    obtain ⟨rfl, rfl⟩ := Prod.mk.inj (Option.some.inj hcall)
    exact ⟨.inr ⟨rfl, rfl⟩, nofun⟩
  case h_7 => exact nomatch hcall

theorem FilesInv.step (h : FilesInv t) (htrans : Trans C i s t l s' t') : FilesInv t' := by
  cases htrans with
  | create _ =>
    refine ⟨fun c hc hpc => ?_, h.handler⟩
    rw [← FileBody.connection.inj hc] at hpc
    exact nomatch hpc
  | @call call c c' s' t₁ hhandler hbody hc hcall =>
    refine ⟨fun c₁ hc₁ hpc => ?_, fun h₀ fd hh₀ => ?_⟩
    · obtain rfl := FileBody.connection.inj hc₁
      rcases connectionCall_files hcall with ⟨fd, bytes, ret, rfl, -⟩ | ⟨-, -, hfile⟩
      · rcases Conn.beforeWrite_step hc hpc with ⟨fd', heq⟩ | ⟨-, hno⟩
        · exact nomatch heq
        · exact absurd rfl (hno fd bytes ret)
      · rcases hfile with hfile | ⟨hno, hfile⟩
        · exact hfile
        · rcases Conn.beforeWrite_step hc hpc with ⟨fd, heq⟩ | ⟨hpc, -⟩
          · exact absurd heq (hno fd)
          · exact hfile.trans (h.connection c hbody hpc)
    · rw [show (_ : FileThread).handler = _ from (connectionCall_mutex hcall).2.1, hhandler] at hh₀
      exact nomatch hh₀
  | sigalrm _ =>
    refine ⟨h.connection, fun h₀ fd hh₀ hpc => ?_⟩
    rw [← Option.some.inj hh₀] at hpc
    exact nomatch hpc
  | handler hhandler hcall => exact ⟨h.connection, (insertTimestamp_files hcall).2⟩

/-- What happens to the data file: a connection writes over it from the start, a handler behind
    its end. -/
theorem Trans.dataFile (h : Trans C i s t l s' t') (hfiles : FilesInv t) :
    s'.dataFile = match l with
      | .call _ => l.stored ++ s.dataFile.drop l.stored.length
      | _ => s.dataFile ++ l.stored := by
  cases h with
  | create _ => exact (List.append_nil _).symm
  | @call call c c' s' t₁ hhandler hbody hc hcall =>
    rcases connectionCall_files hcall with ⟨fd, bytes, ret, rfl, hdata⟩ | ⟨hdata, hstored, -⟩
    · have hpc : c.pc = .write := by cases hc <;> assumption
      rw [hdata, hfiles.connection c hbody (by rw [hpc]; rfl)]
      exact OpenFile.write_start rfl rfl _ _
    · rw [hdata]
      simp [hstored]
  | sigalrm _ => exact (List.append_nil _).symm
  | handler hhandler hcall =>
    rcases (insertTimestamp_files hcall).1 with
      ⟨fd, bytes, ret, hpc, rfl, hdata⟩ | ⟨hdata, hstored⟩
    · rw [hdata, hfiles.handler _ fd hhandler hpc]
      exact OpenFile.write_append rfl _ _
    · rw [hdata]
      simp [hstored]

theorem filesInv_of_run (hrun : (lts C).run init es = some g) (i : Option Nat) :
    FilesInv (g.locals i) := by
  revert i
  refine Lts.run_invariant (I := fun g => ∀ i, FilesInv (g.locals i)) (fun i => ?_)
    (fun g c g' ih hstep i => ?_) hrun
  · refine ⟨fun c hc => ?_, fun h fd hh => nomatch hh⟩
    cases i <;> exact nomatch hc
  · obtain ⟨j, l⟩ := c
    obtain ⟨s, t, htrans, rfl⟩ := lts_step hstep
    by_cases hj : j = i
    · subst hj
      simp only [Function.update_self]
      exact (ih j).step htrans
    · simp only [Function.update_of_ne (Ne.symm hj)]
      exact ih i

theorem storedIn_concat (es : List (Option Nat × FileCall)) (c : Option Nat × FileCall) :
    storedIn (es ++ [c]) = storedIn es ++ c.2.stored := by
  simp [storedIn]

theorem firstWriter_concat {c : Option Nat × FileCall} :
    FirstWriter (es ++ [c]) ↔
      FirstWriter es ∧ ∀ call, c.2 = .call call → c.2.stored ≠ [] → storedIn es = [] :=
  List.forall_split_concat

/-- In every run of any number of connections and timestamps, the data file holds all the bytes
    stored, in order, if and only if each connection that stores its packet is the first to store
    anything. -/
theorem data_kept_iff (hrun : (lts C).run init es = some g) :
    g.shared.dataFile = storedIn es ↔ FirstWriter es := by
  have hkept : g.shared.dataFile.length ≤ (storedIn es).length ∧
      (g.shared.dataFile = storedIn es ↔ FirstWriter es) := by
    refine Lts.run_induction (P := fun es g => g.shared.dataFile.length ≤ (storedIn es).length ∧
      (g.shared.dataFile = storedIn es ↔ FirstWriter es)) ?_
      (fun es g c g' hrun ih hstep => ?_) hrun
    · exact ⟨le_rfl, iff_of_true rfl fun pre c post h => by simp at h⟩
    · obtain ⟨hle, ih⟩ := ih
      obtain ⟨i, l⟩ := c
      obtain ⟨s, t, htrans, rfl⟩ := lts_step hstep
      have hdata := htrans.dataFile (filesInv_of_run hrun i)
      rw [storedIn_concat, firstWriter_concat]
      cases l with
      | call call =>
        simp only [hdata, List.length_append, List.length_drop]
        refine ⟨by omega, ?_⟩
        by_cases hnil : (FileCall.call call).stored = []
        · simp [hnil, ih]
        · by_cases hfirst : storedIn es = []
          · have hempty : g.shared.dataFile = [] := by simpa [hfirst] using hle
            simp [hfirst, hempty, ← ih]
          · refine iff_of_false (fun heq => ?_) fun h => hfirst (h.2 call rfl hnil)
            -- the packet covers bytes that are nowhere else in the file
            have hlen := congrArg List.length heq
            have hpos := List.length_pos_iff.mpr hnil
            have hpos' := List.length_pos_iff.mpr hfirst
            simp only [List.length_append, List.length_drop] at hlen
            omega
      | _ =>
        simp only [hdata, List.length_append]
        exact ⟨by omega, by simp [ih]⟩
  exact hkept.2

/-- Two clients, one after the other, that send the lines `a` and `b`. -/
def twoClients : List (Option Nat × FileCall) :=
  [0, 1].flatMap fun i =>
    [(some i, .create 3), (some i, .call (.openWrite (some 4))),
      (some i, .call (.exitFlag false)), (some i, .call (.malloc true)),
      (some i, .call (.recv (some [97 + UInt8.ofNat i, newline]) [])), (some i, .call .lock),
      (some i, .call (.write 4 [97 + UInt8.ofNat i, newline] 2)), (some i, .call .unlock)]

theorem data_kept_iff_twoClients :
    ∃ g, (lts .glibc).run init twoClients = some g ∧
      (g.shared.dataFile = storedIn twoClients ↔ FirstWriter twoClients) :=
  ⟨((lts .glibc).run init twoClients).get (by decide), (Option.some_get _).symm,
    data_kept_iff (Option.some_get (by decide)).symm⟩

theorem twoClients_lose_data :
    ∃ g, (lts .glibc).run init twoClients = some g ∧ g.shared.dataFile = [98, newline] ∧
      storedIn twoClients = [97, newline, 98, newline] :=
  ⟨((lts .glibc).run init twoClients).get (by decide), (Option.some_get _).symm,
    by decide, by decide⟩

end FileServer

end Aesd
