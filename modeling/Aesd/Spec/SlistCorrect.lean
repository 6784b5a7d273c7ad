import Aesd.Native.LinkedServer
import Aesd.Spec.Registry

/-!
# The list in memory

The server whose list is in memory has the runs of the server whose list is a list, whatever the
links of new entries hold, and after each run its links visit the entries of that list
(`LinkedServer.refines_server`). So the macros never go through a null pointer or a freed entry, the loop
of `SLIST_REMOVE` finds the entry that it looks for, and what is proved of the registry is proved
of the links.
-/

namespace Aesd

namespace Server

/-- The server but for its list. -/
def unlisted (s : Server) : Server := { s with head := [] }

end Server

namespace LinkedServer

open Server

variable {C : Libc} {junk : Nat → Option Nat} {p : LinkedServer} {s s' : Server}
  {call : MainCall} {n : Nat}

/-- The links visit the entries of the list, and the entries allocated are the same. -/
structure Represents (s : Server) (p : LinkedServer) : Prop where
  server : p.server = s.unlisted
  linked : p.list.Linked p.list.first s.head
  allocated : ∀ n, (p.list.link n).isSome = (s.entries n).isSome

namespace Represents

variable (h : Represents s p)

include h

theorem pc : p.server.pc = s.pc := by rw [h.server]; rfl

theorem first : p.list.first = s.head.head? := h.linked.head?

theorem goto (pc : MainPc) : Represents { s with pc := pc } (p.goto pc) := by
  refine ⟨?_, h.linked, h.allocated⟩
  show { p.server with pc := pc } = _
  rw [h.server]
  rfl

theorem next (hnodup : s.head.Nodup) (hn : n ∈ s.head) :
    p.list.next n = some (slistNext s.head n) := by
  obtain ⟨pre, post, hhead⟩ := List.append_of_mem hn
  have hlinked := h.linked
  rw [hhead] at hlinked hnodup
  have hpre : ∀ m ∈ pre, m ≠ n := fun m hm =>
    (List.nodup_append.mp hnodup).2.2 m hm n List.mem_cons_self
  rw [hlinked.next_eq, hhead, slistNext, List.dropWhile_append_of_pos (by simpa using hpre)]
  simp

theorem insertHead (hn : (s.entries n).isSome) (hnew : n ∉ s.head) (pc : MainPc) :
    ∃ p', p.insertHead n pc = some p' ∧
      Represents { s with head := n :: s.head, pc := pc } p' := by
  obtain ⟨l, hl, hlinked, hsome⟩ := h.linked.insertHead (h.allocated n ▸ hn) hnew
  refine ⟨LinkedServer.goto { p with list := l } pc, by simp [LinkedServer.insertHead, hl], ?_, hlinked,
    fun m => (hsome m).trans (h.allocated m)⟩
  show { p.server with pc := pc } = _
  rw [h.server]
  rfl

theorem remove (hnodup : s.head.Nodup) (hn : n ∈ s.head) (hcount : s.head.length ≤ s.entryCount)
    (pc : MainPc) :
    ∃ p', p.remove n pc = some p' ∧
      Represents { s with head := s.head.erase n, pc := pc } p' := by
  have hfuel : s.head.length ≤ p.server.entryCount := by rw [h.server]; exact hcount
  obtain ⟨l, hl, hlinked, hsome⟩ := h.linked.remove hnodup hn hfuel
  refine ⟨LinkedServer.goto { p with list := l } pc, by simp [LinkedServer.remove, hl], ?_,
    hlinked, fun m => (hsome m).trans (h.allocated m)⟩
  show { p.server with pc := pc } = _
  rw [h.server]
  rfl

theorem free (hn : (s.entries n).isSome) (hnot : n ∉ s.head) (pc : MainPc) :
    ∃ p', p.free n pc = some p' ∧ Represents { s.setEntry n none with pc := pc } p' := by
  obtain ⟨l, hl, hfirst, hlink⟩ := Slist.free_spec (h.allocated n ▸ hn)
  refine ⟨LinkedServer.goto ⟨p.server.setEntry n none, l⟩ pc, by simp [LinkedServer.free, hl], ?_,
    ?_, fun m => ?_⟩
  · show { p.server.setEntry n none with pc := pc } = _
    rw [h.server]
    rfl
  · show l.Linked l.first s.head
    rw [hfirst]
    exact h.linked.update hnot hlink
  · show (l.link m).isSome = (Function.update s.entries n none m).isSome
    rw [hlink]
    by_cases hm : m = n
    · subst hm; simp
    · simpa [hm] using h.allocated m

theorem malloc (hinv : s.RegInv) (junk : Nat → Option Nat) (threadId : Nat) :
    ∃ p', (do
        let list ← p.list.alloc p.server.entryCount (junk p.server.entryCount)
        some ⟨{ p.server.setEntry p.server.entryCount (some ⟨threadId, none, false⟩) with
          entryCount := p.server.entryCount + 1, pc := .accept p.server.entryCount }, list⟩) =
        some p' ∧
      Represents { s.setEntry s.entryCount (some ⟨threadId, none, false⟩) with
        entryCount := s.entryCount + 1, pc := .accept s.entryCount } p' := by
  have hcount : p.server.entryCount = s.entryCount := by rw [h.server]; rfl
  have hentry : s.entries s.entryCount = none := (hinv.fresh s.entryCount le_rfl).2
  have hlink : p.list.link s.entryCount = none := by
    rw [← Option.not_isSome_iff_eq_none, h.allocated, hentry]
    simp
  have hnew : s.entryCount ∉ s.head := fun hmem => by
    have hsome := h.linked.isSome hmem
    rw [hlink] at hsome
    exact absurd hsome (by simp)
  obtain ⟨l, hl, hfirst, hupdate⟩ := Slist.alloc_spec hlink (junk s.entryCount)
  simp only [hcount, hl, Option.bind_eq_bind, Option.bind_some, Option.some.injEq]
  refine ⟨_, rfl, ?_, ?_, fun m => ?_⟩
  · show _ = _
    rw [h.server]
    rfl
  · show l.Linked l.first s.head
    rw [hfirst]
    exact h.linked.update hnew hupdate
  · show (l.link m).isSome = (Function.update s.entries s.entryCount _ m).isSome
    rw [hupdate]
    by_cases hm : m = s.entryCount
    · subst hm; simp
    · simpa [hm] using h.allocated m

/-- A step that leaves the list and what is allocated alone. -/
theorem of_same (hhead : s'.head = s.head)
    (hsome : ∀ n, (s'.entries n).isSome = (s.entries n).isSome) :
    Represents s' ⟨s'.unlisted, p.list⟩ := by
  refine ⟨rfl, ?_, fun n => (h.allocated n).trans (hsome n).symm⟩
  show p.list.Linked p.list.first s'.head
  rw [hhead]
  exact h.linked

end Represents

/-! ### What the main thread knows of its list -/

theorem listed_le_inHand {pc : MainPc} (h : pc.listed? = some n) : pc.inHand? = some n := by
  cases pc <;> first | exact h | exact absurd h (by simp [MainPc.listed?])

/-- An entry in the list is allocated. -/
theorem isSome_of_mem (hinv : s.RegInv) (hn : n ∈ s.head) : (s.entries n).isSome := by
  rw [hinv.live]
  exact ((hinv.mem_head n).mp hn).imp_right listed_le_inHand

/-- The list is no longer than the number of entries there ever were. -/
theorem length_head_le (hinv : s.RegInv) : s.head.length ≤ s.entryCount := by
  have hsub : s.head ⊆ List.range s.entryCount := by
    intro n hn
    have hlive := (hinv.live n).mp (isSome_of_mem hinv hn)
    exact List.mem_range.mpr (hinv.lt_of_live hlive)
  have hlen := (List.subperm_of_subset hinv.nodup hsub).length_le
  rwa [List.length_range] at hlen

/-- The entry in hand is not in the list, but where it is the one more there. -/
theorem not_mem_of_inHand (hinv : s.RegInv) (hlisted : s.pc.listed? = none)
    (hhand : s.pc.inHand? = some n) : n ∉ s.head := by
  have hknows := hinv.knows
  rw [hinv.mem_head, hlisted]
  cases hpc : s.pc <;> rw [hpc] at hknows hlisted hhand <;>
    simp_all [MainPc.listed?, MainPc.inHand?, MainPc.Knows, ThreadState.active]

/-- Writing to an entry leaves what is allocated alone. -/
theorem isSome_update_map (entries : Nat → Option ThreadEntry) (n : Nat)
    (f : ThreadEntry → ThreadEntry) (m : Nat) :
    (Function.update entries n ((entries n).map f) m).isSome = (entries m).isSome := by
  by_cases hm : m = n
  · subst hm; simp
  · rw [Function.update_of_ne hm]

/-! ### The steps -/

theorem rel_of_exists {o : Option LinkedServer}
    (h : ∃ p', o = some p' ∧ Represents s' p') : Option.Rel Represents (some s') o := by
  obtain ⟨p', rfl, hp⟩ := h
  exact .some hp

theorem rel_of_guard {P : Prop} [Decidable P] {s₁ : Server} {l : Slist Nat}
    (h : P → Represents s' ⟨s₁, l⟩) :
    Option.Rel Represents (if P then some s' else none)
      ((if P then some s₁ else none).bind fun s => some ⟨s, l⟩) := by
  split
  · next hP => exact .some (h hP)
  · exact .none

/-- A call of the main thread has the same effect in both systems, or happens in neither. -/
theorem mainStep_rel (h : Represents s p) (hinv : s.RegInv) :
    Option.Rel Represents (Server.mainStep s call) (p.mainStep junk call) := by
  have hlive : ∀ n, s.pc.inHand? = some n → (s.entries n).isSome := fun n hn =>
    (hinv.live n).mpr (.inr hn)
  have hmem : ∀ n, s.pc.listed? = some n → n ∈ s.head := fun n hn =>
    (hinv.mem_head n).mpr (.inr hn)
  have hnot := fun n => not_mem_of_inHand hinv (n := n)
  have hlen := length_head_le hinv
  have hknows := hinv.knows
  unfold LinkedServer.mainStep
  simp only [h.pc]
  split
  case h_1 hpc =>
    simp only [Server.mainStep, hpc, h.first]
    exact .some (h.goto _)
  case h_2 hpc =>
    simp only [Server.mainStep, hpc, h.first]
    exact .some (h.goto _)
  case h_3 threadId hpc =>
    simp only [Server.mainStep, hpc, h.pc]
    exact rel_of_exists (h.malloc hinv junk threadId)
  case h_4 entry entry' hpc =>
    simp only [Server.mainStep, hpc, h.first]
    rw [hpc] at hlive hnot
    split
    · exact rel_of_exists (h.free (hlive _ rfl) (hnot _ rfl rfl) _)
    · exact .none
  case h_5 entry entry' hpc =>
    simp only [Server.mainStep, hpc]
    rw [hpc] at hlive hnot
    split
    · exact rel_of_exists (h.insertHead (hlive _ rfl) (hnot _ rfl rfl) _)
    · exact .none
  case h_6 entry entry' threadId hpc =>
    have hpc' : s.unlisted.pc = .create entry := hpc
    have hsome := isSome_update_map s.entries entry fun e => { e with threadId := threadId }
    simp only [Server.mainStep, hpc, h.server, hpc', h.first]
    change Option.Rel _ _ (Option.bind _ _)
    split
    · exact .some ⟨rfl, h.linked, fun m => (h.allocated m).trans (hsome m).symm⟩
    · exact .none
  case h_7 entry entry' hpc =>
    simp only [Server.mainStep, hpc]
    split
    · exact rel_of_exists (h.remove hinv.nodup (hmem _ (hpc ▸ rfl)) hlen _)
    · exact .none
  case h_8 entry entry' hpc =>
    simp only [Server.mainStep, hpc]
    rw [hpc] at hlive hnot
    split
    · exact rel_of_exists (h.free (hlive _ rfl) (hnot _ rfl rfl) _)
    · exact .none
  case h_9 entry entry' hpc =>
    simp only [Server.mainStep, hpc]
    rw [hpc] at hknows
    split
    · rw [h.next hinv.nodup ((hinv.mem_head _).mpr (.inl hknows))]
      exact .some (h.goto _)
    · exact .none
  case h_10 entry entry' hpc =>
    simp only [Server.mainStep, hpc]
    split
    · exact rel_of_exists (h.remove hinv.nodup (hmem _ (hpc ▸ rfl)) hlen _)
    · exact .none
  case h_11 entry entry' hpc =>
    simp only [Server.mainStep, hpc]
    rw [hpc] at hlive hnot
    split
    · exact rel_of_exists (h.free (hlive _ rfl) (hnot _ rfl rfl) _)
    · exact .none
  case h_12 entry entry' hpc =>
    simp only [Server.mainStep, hpc]
    rw [hpc] at hknows
    split
    · rw [h.next hinv.nodup ((hinv.mem_head _).mpr (.inl hknows.2))]
      have hentries : p.server.entries = s.entries := by rw [h.server]; rfl
      rw [hentries]
      cases he : s.entries entry with
      | none => exact .none
      | some e => exact .some (h.goto _)
    · exact .none
  case h_13 entry entry' hpc =>
    simp only [Server.mainStep, hpc]
    split
    · exact rel_of_exists (h.remove hinv.nodup (hmem _ (hpc ▸ rfl)) hlen _)
    · exact .none
  case h_14 entry entry' hpc =>
    simp only [Server.mainStep, hpc]
    rw [hpc] at hlive hnot
    split
    · exact rel_of_exists (h.free (hlive _ rfl) (hnot _ rfl rfl) _)
    · exact .none
  case h_15 h1 h2 h3 h4 h5 h6 h7 h8 h9 h10 h11 h12 h13 h14 =>
    rw [h.server]
    unfold Server.mainStep
    simp only [show s.unlisted.pc = s.pc from rfl]
    split
    -- a call that is about the list is not one of these
    case h_1 hpc => exact (h1 hpc rfl).elim
    case h_3 hpc => exact (h2 hpc rfl).elim
    case h_4 hpc => exact (h3 _ hpc rfl).elim
    case h_6 hpc => exact (h4 _ _ hpc rfl).elim
    case h_8 hpc => exact (h5 _ _ hpc rfl).elim
    case h_10 hpc => exact (h6 _ _ _ hpc rfl).elim
    case h_11 hpc => exact (h7 _ _ hpc rfl).elim
    case h_12 hpc => exact (h8 _ _ hpc rfl).elim
    case h_13 hpc => exact (h9 _ _ hpc rfl).elim
    case h_16 hpc => exact (h10 _ _ _ hpc rfl).elim
    case h_17 hpc => exact (h11 _ _ _ hpc rfl).elim
    case h_18 hpc => exact (h12 _ _ hpc rfl).elim
    case h_21 hpc => exact (h13 _ _ _ hpc rfl).elim
    case h_22 hpc => exact (h14 _ _ _ hpc rfl).elim
    case h_2 => exact .some (h.of_same rfl fun _ => rfl)
    case h_5 => exact .some (h.of_same rfl fun _ => rfl)
    case h_7 =>
      exact rel_of_guard fun _ => h.of_same rfl (isSome_update_map s.entries _ _)
    case h_9 => exact rel_of_guard fun _ => h.of_same rfl fun _ => rfl
    case h_14 => exact rel_of_guard fun _ => h.of_same rfl fun _ => rfl
    case h_15 => exact rel_of_guard fun _ => h.of_same rfl fun _ => rfl
    case h_19 entry temp entry' _ =>
      simp only [show s.unlisted.entries = s.entries from rfl]
      cases s.entries entry with
      | none => simp only [ite_self]; exact .none
      | some e => exact rel_of_guard fun _ => h.of_same rfl fun _ => rfl
    case h_20 => exact rel_of_guard fun _ => h.of_same rfl fun _ => rfl
    case h_23 => exact .some (h.of_same rfl fun _ => rfl)
    case h_24 => exact .none

/-- What a thread's call does to what it shares does not depend on the list. -/
theorem threadEffect_unlisted (s : Server) (n : Nat) (call : Call) :
    threadEffect s.unlisted n call = (threadEffect s n call).map unlisted := by
  cases call with
  | openWrite fd | openRead fd =>
    cases fd with
    | none => rfl
    | some fd =>
      simp only [threadEffect, show s.unlisted.fds = s.fds from rfl]
      split <;> rfl
  | close fd => cases fd <;> rfl
  | _ => rfl

theorem step_rel (h : Represents s p) (hinv : s.RegInv) :
    Option.Rel Represents (Server.step C s call) (p.step C junk call) := by
  cases call with
  | begin n =>
    simp only [Server.step, LinkedServer.step, h.server,
      show s.unlisted.threads = s.threads from rfl, show s.unlisted.entries = s.entries from rfl]
    cases s.threads n with
    | created =>
      cases (s.entries n).bind ThreadEntry.myClient with
      | none => exact .none
      | some fd => exact .some (h.of_same rfl fun _ => rfl)
    | _ => exact .none
  | thread n call =>
    simp only [Server.step, LinkedServer.step, h.server, threadEffect_unlisted,
      show s.unlisted.threads = s.threads from rfl]
    cases s.threads n with
    | running c =>
      cases hc : c.step C call with
      | none => simp only [hc]; exact .none
      | some c' =>
        cases heffect : threadEffect s n call with
        | none => simp only [hc]; exact .none
        | some s₁ =>
          simp only [hc]
          obtain ⟨-, hhead, -, -, hid⟩ := threadEffect_registry heffect
          have hsome : ∀ m, (s₁.entries m).isSome = (s.entries m).isSome := by
            intro m
            have := congrArg Option.isSome (hid m)
            simpa using this
          have hsame : Represents (s₁.setThread n (.running c'))
              ⟨(s₁.setThread n (.running c')).unlisted, p.list⟩ := h.of_same hhead hsome
          exact .some hsame
    | _ => exact .none
  | _ => exact mainStep_rel h hinv

/-- The list in memory, in every run. The server with its list in memory has the runs of the
    server, and after each the links visit the entries of the list one after another and the
    same entries are allocated. When `main` returns the list is empty and no entry is allocated. -/
theorem refines_server (C : Libc) (junk : Nat → Option Nat) (es : List MainCall) :
    Option.Rel Represents ((Server.lts C).run Server.init es) ((lts C junk).run init es) ∧
      ∀ p, (lts C junk).run init es = some p → p.server.pc = .returned →
        p.list.first = none ∧ ∀ n, p.list.link n = none := by
  have hstart : Represents Server.init init := ⟨rfl, rfl, fun _ => rfl⟩
  have hrel : Option.Rel Represents ((Server.lts C).run Server.init es)
      ((lts C junk).run init es) := by
    refine Lts.run_bisimulation (fun fs s p call hrun h => ?_) hstart es
    exact step_rel h (regInv_of_run hrun)
  refine ⟨hrel, fun p hp hpc => ?_⟩
  rw [hp] at hrel
  cases hs : (Server.lts C).run Server.init es with
  | none => rw [hs] at hrel; exact absurd hrel (by simp)
  | some s =>
    rw [hs] at hrel
    have h : Represents s p := by simpa using hrel
    have hinv := regInv_of_run hs
    have hknows := hinv.knows
    rw [h.pc] at hpc
    rw [hpc] at hknows
    have hhead : s.head = [] := hknows
    refine ⟨by rw [h.first, hhead]; rfl, fun n => ?_⟩
    rw [← Option.not_isSome_iff_eq_none, h.allocated, hinv.live, hpc]
    rintro (hactive | hhand)
    · have hmem := (hinv.mem_head n).mpr (.inl hactive)
      rw [hhead] at hmem
      exact absurd hmem List.not_mem_nil
    · exact absurd hhand (by simp [MainPc.inHand?])

/-- What the fresh memory of an entry may hold. -/
def garbage (n : Nat) : Option Nat := some (n + 5)

/-- Two clients, whose connections cannot open the device. The thread of the first one is joined
    while the entry of the second is in front of its own. -/
def twoClients : List MainCall :=
  [.exitFlag false, .malloc (some 7), .accept (some 3), .insert 0, .create 0 (some 9), .next 0,
    .isDone 0 false, .begin 0, .thread 0 (.openWrite none), .thread 0 .setDone,
    .thread 0 (.close (some 3)), .exitFlag false, .malloc (some 7), .accept (some 4), .insert 1,
    .create 1 (some 9), .next 1, .isDone 1 false, .next 0, .isDone 0 true, .join 0, .remove 0,
    .free 0, .begin 1, .thread 1 (.openWrite none), .thread 1 .setDone,
    .thread 1 (.close (some 4)), .exitFlag true, .next 1, .join 1, .close 1 4, .remove 1, .free 1,
    .cleanup]

theorem refines_server_twoClients :
    ∃ p, (lts .glibc garbage).run init twoClients = some p ∧
      p.list.first = none ∧ ∀ n, p.list.link n = none :=
  ⟨((lts .glibc garbage).run init twoClients).get (by decide), (Option.some_get _).symm,
    (refines_server .glibc garbage twoClients).2 _ (Option.some_get _).symm (by decide)⟩

end LinkedServer

end Aesd
