import Aesd.Spec.MainLoopStep

/-!
# The thread registry

The list of the main thread holds the entries of the threads that are created and not joined,
and at most one more: the one that the main thread is putting in or taking out (`RegInv`).
Every entry in the list is allocated, so no link of a freed entry is followed, and a thread that
has not ended has its entry. `Server.registry_lifecycle` tells the same by the calls of a run.
-/

namespace Aesd

/-- A thread that is created and not joined. -/
def ThreadState.active : ThreadState → Bool
  | .created | .running _ => true
  | _ => false

/-- The entry that a call is about, or the thread that makes it. -/
def MainCall.entry? : MainCall → Option Nat
  | .insert n | .create n _ | .next n | .isDone n _ | .join n | .close n _ | .remove n | .free n
  | .begin n | .thread n _ => some n
  | _ => none

namespace MainPc

/-- The entry that is in the list though its thread is not created or is joined. -/
def listed? : MainPc → Option Nat
  | .create n | .removeUncreated n | .sweepRemove n _ | .shutdownClose n _
  | .shutdownRemove n _ => some n
  | _ => none

/-- The entry that is allocated though its thread is not created or is joined. -/
def inHand? : MainPc → Option Nat
  | .accept n | .freeUnaccepted n | .insert n | .create n | .removeUncreated n
  | .freeUncreated n | .sweepRemove n _ | .sweepFree n _ | .shutdownClose n _
  | .shutdownRemove n _ | .shutdownFree n _ => some n
  | _ => none

/-- What the main thread knows of `indexed_entry` and `temp`, or of `current_entry`. -/
def Knows (head : List Nat) (threads : Nat → ThreadState) : MainPc → Prop
  | .loopTop | .malloc => True
  | .accept n | .freeUnaccepted n | .insert n | .create n => threads n = .none
  | .removeUncreated n | .freeUncreated n => threads n = .failed
  | .sweepNext n => (threads n).active = true
  | .sweepTest n temp | .sweepJoin n temp =>
    (threads n).active = true ∧ ∀ t, temp = some t → t ≠ n ∧ (threads t).active = true
  | .sweepRemove n temp | .sweepFree n temp =>
    threads n = .joined ∧ ∀ t, temp = some t → (threads t).active = true
  | .shutdownNext n => head.head? = some n ∧ (threads n).active = true
  | .shutdownJoin n temp => (threads n).active = true ∧ ∃ rest, head = n :: rest ∧ temp = rest.head?
  | .shutdownClose n temp | .shutdownRemove n temp =>
    threads n = .joined ∧ ∃ rest, head = n :: rest ∧ temp = rest.head?
  | .shutdownFree n temp => threads n = .joined ∧ temp = head.head?
  | .cleanup | .returned => head = []

end MainPc

namespace Server

variable {C : Libc} {s s' : Server} {call : MainCall} {n : Nat}

/-- What holds of the registry between any two steps. -/
structure RegInv (s : Server) : Prop where
  nodup : s.head.Nodup
  mem_head : ∀ n, n ∈ s.head ↔ (s.threads n).active = true ∨ s.pc.listed? = some n
  live : ∀ n, (s.entries n).isSome ↔ (s.threads n).active = true ∨ s.pc.inHand? = some n
  fresh : ∀ n, s.entryCount ≤ n → s.threads n = .none ∧ s.entries n = none
  threadId : ∀ n e, (s.threads n).active = true → s.entries n = some e → e.threadId ≠ 0
  knows : s.pc.Knows s.head s.threads

theorem regInv_init : init.RegInv :=
  ⟨List.nodup_nil, fun n => by simp [init, ThreadState.active, MainPc.listed?],
    fun n => by simp [init, ThreadState.active, MainPc.inHand?], fun _ _ => ⟨rfl, rfl⟩, nofun,
    trivial⟩

/-- A step that changes neither the list nor which threads are active nor which entries are
    allocated. -/
theorem RegInv.of_same (h : s.RegInv) (hhead : s'.head = s.head)
    (hcount : s'.entryCount = s.entryCount)
    (hthreads : ∀ n, (s'.threads n).active = (s.threads n).active ∧
      (s.entryCount ≤ n → s'.threads n = s.threads n))
    (hentries : ∀ n, (s'.entries n).map ThreadEntry.threadId =
      (s.entries n).map ThreadEntry.threadId)
    (hlisted : s'.pc.listed? = s.pc.listed?) (hhand : s'.pc.inHand? = s.pc.inHand?)
    (hknows : s'.pc.Knows s'.head s'.threads) : s'.RegInv := by
  have hsome : ∀ n, (s'.entries n).isSome = (s.entries n).isSome := by
    intro n
    have := congrArg Option.isSome (hentries n)
    simpa using this
  refine ⟨hhead ▸ h.nodup, fun n => ?_, fun n => ?_, fun n hn => ?_, fun n e hn he => ?_, hknows⟩
  · rw [hhead, (hthreads n).1, hlisted, h.mem_head]
  · rw [hsome, (hthreads n).1, hhand, h.live]
  · obtain ⟨hthread, hentry⟩ := h.fresh n (hcount ▸ hn)
    refine ⟨((hthreads n).2 (hcount ▸ hn)).trans hthread, ?_⟩
    rw [← Option.not_isSome_iff_eq_none, hsome, hentry]
    simp
  · have hid := hentries n
    rw [he, Option.map_some] at hid
    obtain ⟨e₀, he₀, hid⟩ := Option.map_eq_some_iff.mp hid.symm
    rw [← hid]
    exact h.threadId n e₀ ((hthreads n).1 ▸ hn) he₀

theorem RegInv.lt_of_live (h : s.RegInv)
    (hn : (s.threads n).active = true ∨ s.pc.inHand? = some n) : n < s.entryCount := by
  by_contra hle
  have hsome := (h.live n).mpr hn
  rw [(h.fresh n (Nat.not_lt.mp hle)).2] at hsome
  exact nomatch hsome

/-- Freeing the entry in hand. -/
theorem RegInv.free (h : s.RegInv) {pc : MainPc} (hlisted : s.pc.listed? = none)
    (hhand : s.pc.inHand? = some n) (hn : (s.threads n).active = false)
    (hlisted' : pc.listed? = none) (hhand' : pc.inHand? = none)
    (hknows : pc.Knows s.head s.threads) : RegInv { s.setEntry n none with pc := pc } := by
  refine ⟨h.nodup, fun m => ?_, fun m => ?_, fun m hm => ?_, fun m e hm he => ?_, hknows⟩
  · simpa [hlisted, hlisted'] using h.mem_head m
  · by_cases hmn : m = n
    · subst hmn
      simp [hn, hhand']
    · simpa [hmn, hhand, hhand', Ne.symm hmn] using h.live m
  · obtain ⟨hthread, hentry⟩ := h.fresh m hm
    refine ⟨hthread, ?_⟩
    by_cases hmn : m = n
    · subst hmn; simp
    · simpa [hmn] using hentry
  · by_cases hmn : m = n
    · subst hmn; simp at he
    · exact h.threadId m e hm (by simpa [hmn] using he)

/-- Taking the entry in hand out of the list. -/
theorem RegInv.remove (h : s.RegInv) {pc : MainPc} (hlisted : s.pc.listed? = some n)
    (hn : (s.threads n).active = false) (hlisted' : pc.listed? = none)
    (hhand' : pc.inHand? = s.pc.inHand?) (hknows : pc.Knows (s.head.erase n) s.threads) :
    RegInv { s with head := s.head.erase n, pc := pc } := by
  refine ⟨h.nodup.erase n, fun m => ?_, fun m => ?_, h.fresh, h.threadId, hknows⟩
  · simp only [hlisted', h.nodup.mem_erase_iff, h.mem_head, hlisted, Option.some.injEq]
    constructor
    · rintro ⟨hmn, hm | rfl⟩
      · exact .inl hm
      · exact absurd rfl hmn
    · rintro (hm | hm)
      · refine ⟨?_, .inl hm⟩
        rintro rfl
        rw [hn] at hm
        exact nomatch hm
      · exact nomatch hm
  · simpa [hhand'] using h.live m

/-- Joining the thread of an entry in the list. -/
theorem RegInv.join (h : s.RegInv) {pc : MainPc} (hlisted : s.pc.listed? = none)
    (hhand : s.pc.inHand? = none) (hn : (s.threads n).active = true)
    (hlisted' : pc.listed? = some n) (hhand' : pc.inHand? = some n)
    (hknows : pc.Knows s.head (Function.update s.threads n .joined)) :
    RegInv { s.setThread n .joined with pc := pc } := by
  refine ⟨h.nodup, fun m => ?_, fun m => ?_, fun m hm => ?_, fun m e hm he => ?_, hknows⟩
  · by_cases hmn : m = n
    · subst hmn
      simp [h.mem_head, hn, hlisted']
    · simpa [hmn, hlisted, hlisted', Ne.symm hmn] using h.mem_head m
  · by_cases hmn : m = n
    · subst hmn
      simp [h.live, hn, hhand']
    · simpa [hmn, hhand, hhand', Ne.symm hmn] using h.live m
  · obtain ⟨hthread, hentry⟩ := h.fresh m hm
    have hmn : m ≠ n := by
      rintro rfl
      rw [hthread] at hn
      exact nomatch hn
    exact ⟨by simpa [hmn] using hthread, hentry⟩
  · by_cases hmn : m = n
    · subst hmn
      simp [ThreadState.active] at hm
    · exact h.threadId m e (by simpa [hmn] using hm) he

@[simp] theorem listed_sweepFrom (temp : Option Nat) : (sweepFrom temp).listed? = none := by
  cases temp <;> rfl

@[simp] theorem inHand_sweepFrom (temp : Option Nat) : (sweepFrom temp).inHand? = none := by
  cases temp <;> rfl

@[simp] theorem listed_shutdownFrom (temp : Option Nat) : (shutdownFrom temp).listed? = none := by
  cases temp <;> rfl

@[simp] theorem inHand_shutdownFrom (temp : Option Nat) : (shutdownFrom temp).inHand? = none := by
  cases temp <;> rfl

@[simp] theorem listed_closeFrom (e : ThreadEntry) (n : Nat) (temp : Option Nat) :
    (closeFrom e n temp).listed? = some n := by
  unfold closeFrom
  split <;> rfl

@[simp] theorem inHand_closeFrom (e : ThreadEntry) (n : Nat) (temp : Option Nat) :
    (closeFrom e n temp).inHand? = some n := by
  unfold closeFrom
  split <;> rfl

theorem knows_sweepFrom {head : List Nat} {threads : Nat → ThreadState} {temp : Option Nat}
    (h : ∀ t, temp = some t → (threads t).active = true) :
    (sweepFrom temp).Knows head threads := by
  cases temp with
  | none => trivial
  | some t => exact h t rfl

theorem knows_shutdownFrom {head : List Nat} {threads : Nat → ThreadState}
    (h : ∀ t ∈ head, (threads t).active = true) :
    (shutdownFrom head.head?).Knows head threads := by
  cases head with
  | nil => exact rfl
  | cons t rest => exact ⟨rfl, h t List.mem_cons_self⟩

theorem knows_closeFrom {head : List Nat} {threads : Nat → ThreadState} {temp : Option Nat}
    (e : ThreadEntry) (hn : threads n = .joined)
    (hrest : ∃ rest, head = n :: rest ∧ temp = rest.head?) :
    (closeFrom e n temp).Knows head threads := by
  unfold closeFrom
  split <;> exact ⟨hn, hrest⟩

/-- Between two entries every entry in the list is that of an active thread. -/
theorem RegInv.active_of_mem (h : s.RegInv) (hlisted : s.pc.listed? = none) :
    ∀ t ∈ s.head, (s.threads t).active = true := by
  intro t ht
  simpa [hlisted] using (h.mem_head t).mp ht

/-- The entry behind `n` is another one of the list. -/
theorem slistNext_eq_some {head : List Nat} (hnodup : head.Nodup) {t : Nat}
    (h : slistNext head n = some t) : t ≠ n ∧ t ∈ head := by
  unfold slistNext at h
  have hsuffix := List.dropWhile_suffix (l := head) (· ≠ n)
  cases hdrop : head.dropWhile (· ≠ n) with
  | nil => rw [hdrop] at h; exact nomatch h
  | cons m rest =>
    rw [hdrop, List.tail_cons] at h
    have hmem := List.mem_of_mem_head? h
    have hm : m = n := by
      have hnot := List.head?_dropWhile_not (· ≠ n) head
      rw [hdrop] at hnot
      simpa using hnot
    rw [hdrop] at hsuffix
    have hnodup' := hnodup.sublist hsuffix.sublist
    refine ⟨?_, hsuffix.subset (List.mem_cons_of_mem m hmem)⟩
    rintro rfl
    exact (List.nodup_cons.mp hnodup').1 (hm ▸ hmem)

theorem slistNext_cons_self (n : Nat) (rest : List Nat) : slistNext (n :: rest) n = rest.head? := by
  simp [slistNext]

/-- A step of an active thread that stays active. -/
theorem RegInv.of_active_thread (h : s.RegInv) {t : ThreadState}
    (hn : (s.threads n).active = true) (ht : t.active = true) : (s.setThread n t).RegInv := by
  have hlt := h.lt_of_live (.inl hn)
  have hactive : ∀ m, (Function.update s.threads n t m).active = (s.threads m).active := by
    intro m
    by_cases hm : m = n
    · subst hm; rw [Function.update_self, hn, ht]
    · rw [Function.update_of_ne hm]
  refine h.of_same rfl rfl (fun m => ⟨hactive m, fun hle => ?_⟩) (fun _ => rfl) rfl rfl ?_
  · exact Function.update_of_ne (hlt.trans_le hle).ne' _ _
  · have heq : ∀ m (u : ThreadState), u.active = false → s.threads m = u →
        Function.update s.threads n t m = u := by
      intro m u hu hm
      rw [Function.update_of_ne, hm]
      rintro rfl
      rw [hm, hu] at hn
      exact nomatch hn
    have hnone := fun m => heq m .none rfl
    have hfailed := fun m => heq m .failed rfl
    have hjoined := fun m => heq m .joined rfl
    have hknows := h.knows
    change s.pc.Knows s.head (Function.update s.threads n t)
    cases hpc : s.pc <;> rw [hpc] at hknows <;> simp only [MainPc.Knows] at hknows ⊢ <;>
      simp_all

/-- What a thread's call leaves alone. -/
theorem threadEffect_registry {call : Call} (h : threadEffect s n call = some s') :
    s'.pc = s.pc ∧ s'.head = s.head ∧ s'.entryCount = s.entryCount ∧ s'.threads = s.threads ∧
      ∀ m, (s'.entries m).map ThreadEntry.threadId = (s.entries m).map ThreadEntry.threadId := by
  unfold threadEffect at h
  split at h
  case h_1 =>
    obtain ⟨-, h⟩ := Option.ite_none_right_eq_some.mp h
    obtain rfl := Option.some.inj h
    exact ⟨rfl, rfl, rfl, rfl, fun _ => rfl⟩
  case h_2 =>
    obtain ⟨-, h⟩ := Option.ite_none_right_eq_some.mp h
    obtain rfl := Option.some.inj h
    exact ⟨rfl, rfl, rfl, rfl, fun _ => rfl⟩
  case h_3 =>
    obtain rfl := Option.some.inj h
    refine ⟨rfl, rfl, rfl, rfl, fun m => ?_⟩
    by_cases hm : m = n
    · subst hm; simp [Function.comp_def]
    · simp [hm]
  case h_4 =>
    obtain rfl := Option.some.inj h
    exact ⟨rfl, rfl, rfl, rfl, fun _ => rfl⟩
  case h_5 =>
    obtain rfl := Option.some.inj h
    exact ⟨rfl, rfl, rfl, rfl, fun _ => rfl⟩

/-- One step of the main thread on its registry. -/
theorem RegInv.step (h : s.RegInv) (htrans : Trans C s call s') : s'.RegInv := by
  have hknows := h.knows
  cases htrans with
  | exit hpc =>
    have hlisted : s.pc.listed? = none := by rw [hpc]; rfl
    exact h.of_same rfl rfl (fun _ => ⟨rfl, fun _ => rfl⟩) (fun _ => rfl) (by simp [hlisted])
      (by rw [hpc]; exact inHand_shutdownFrom _) (knows_shutdownFrom (h.active_of_mem hlisted))
  | loop hpc =>
    exact h.of_same rfl rfl (fun _ => ⟨rfl, fun _ => rfl⟩) (fun _ => rfl) (by rw [hpc]; rfl)
      (by rw [hpc]; rfl)
      trivial
  | mallocFailed hpc =>
    have hlisted : s.pc.listed? = none := by rw [hpc]; rfl
    exact h.of_same rfl rfl (fun _ => ⟨rfl, fun _ => rfl⟩) (fun _ => rfl) (by simp [hlisted])
      (by rw [hpc]; exact inHand_shutdownFrom _) (knows_shutdownFrom (h.active_of_mem hlisted))
  | malloc hpc =>
    obtain ⟨hthread, -⟩ := h.fresh s.entryCount le_rfl
    refine ⟨h.nodup, fun m => ?_, fun m => ?_, fun m hm => ?_, fun m e hm he => ?_, hthread⟩
    · simpa [hpc, MainPc.listed?] using h.mem_head m
    · by_cases hm : m = s.entryCount
      · subst hm
        simp [MainPc.inHand?]
      · simpa [hm, hpc, MainPc.inHand?, Ne.symm hm] using h.live m
    · obtain ⟨hthread, hentry⟩ := h.fresh m (Nat.le_of_succ_le hm)
      have hne : m ≠ s.entryCount := Nat.ne_of_gt hm
      exact ⟨hthread, by simpa [hne] using hentry⟩
    · have hne : m ≠ s.entryCount := by
        rintro rfl
        change (s.threads s.entryCount).active = true at hm
        rw [hthread] at hm
        exact nomatch hm
      exact h.threadId m e hm (by simpa [hne] using he)
  | acceptFailed hpc =>
    rw [hpc] at hknows
    exact h.of_same rfl rfl (fun _ => ⟨rfl, fun _ => rfl⟩) (fun _ => rfl) (by rw [hpc]; rfl)
      (by rw [hpc]; rfl)
      hknows
  | freeUnaccepted hpc =>
    rw [hpc] at hknows
    have hlisted : s.pc.listed? = none := by rw [hpc]; rfl
    exact h.free hlisted (by rw [hpc]; rfl) (by rw [show s.threads _ = _ from hknows]; rfl)
      (by simp) (by simp) (knows_shutdownFrom (h.active_of_mem hlisted))
  | @accept n fd hpc _ =>
    rw [hpc] at hknows
    refine h.of_same rfl rfl (fun _ => ⟨rfl, fun _ => rfl⟩) (fun m => ?_) (by rw [hpc]; rfl)
      (by rw [hpc]; rfl) hknows
    by_cases hm : m = n
    · subst hm
      simp [Function.comp_def]
    · simp [hm]
  | @insert n hpc =>
    rw [hpc] at hknows
    have hthread : s.threads n = .none := hknows
    have hn : n ∉ s.head := by
      rw [h.mem_head, hthread, hpc]
      simp [ThreadState.active, MainPc.listed?]
    refine ⟨List.nodup_cons.mpr ⟨hn, h.nodup⟩, fun m => ?_, fun m => ?_, h.fresh, h.threadId,
      hknows⟩
    · have hm := h.mem_head m
      simp only [hpc, MainPc.listed?, reduceCtorEq, or_false] at hm
      simp only [List.mem_cons, hm, MainPc.listed?, Option.some.injEq, eq_comm (a := n), or_comm]
    · simpa [hpc, MainPc.inHand?] using h.live m
  | @createFailed n hpc =>
    rw [hpc] at hknows
    have hthread : s.threads n = .none := hknows
    have hlt : n < s.entryCount := h.lt_of_live (.inr (by rw [hpc]; rfl))
    refine h.of_same rfl rfl (fun m => ?_) (fun _ => rfl) (by rw [hpc]; rfl)
      (by rw [hpc]; rfl)
      (Function.update_self _ _ _)
    by_cases hm : m = n
    · subst hm
      refine ⟨?_, fun hle => absurd hlt (Nat.not_lt.mpr hle)⟩
      change (Function.update s.threads m .failed m).active = _
      rw [Function.update_self, hthread]
      rfl
    · simp [hm]
  | @create n threadId hpc hid =>
    have hlt : n < s.entryCount := h.lt_of_live (.inr (by rw [hpc]; rfl))
    have hlisted : ∀ t ∈ s.head, (s.threads t).active = true ∨ t = n := by
      intro t ht
      refine ((h.mem_head t).mp ht).imp_right fun hlisted => ?_
      rw [hpc] at hlisted
      exact (Option.some.inj hlisted).symm
    refine ⟨h.nodup, fun m => ?_, fun m => ?_, fun m hm => ?_, fun m e hm he => ?_,
      knows_sweepFrom fun t ht => ?_⟩
    · change m ∈ s.head ↔ (Function.update s.threads n .created m).active = true ∨
        (sweepFrom s.head.head?).listed? = some m
      have hm := h.mem_head m
      simp only [hpc, MainPc.listed?, Option.some.injEq] at hm
      rw [listed_sweepFrom, hm]
      by_cases hm : m = n
      · subst hm
        simp [ThreadState.active]
      · simp [hm, Ne.symm hm]
    · change (Function.update s.entries n ((s.entries n).map _) m).isSome ↔
        (Function.update s.threads n .created m).active = true ∨
          (sweepFrom s.head.head?).inHand? = some m
      have hm := h.live m
      simp only [hpc, MainPc.inHand?, Option.some.injEq] at hm
      rw [inHand_sweepFrom]
      by_cases hmn : m = n
      · subst hmn
        simp [hm, ThreadState.active]
      · simp [hmn, Ne.symm hmn, hm]
    · have hne : m ≠ n := (hlt.trans_le hm).ne'
      simpa [hne] using h.fresh m hm
    · by_cases hne : m = n
      · subst hne
        simp only [entries_setEntry, Function.update_self, entries_setThread,
          Option.map_eq_some_iff] at he
        obtain ⟨e₀, -, rfl⟩ := he
        exact hid
      · exact h.threadId m e (by simpa [hne] using hm) (by simpa [hne] using he)
    · by_cases hne : t = n
      · subst hne
        simp [ThreadState.active]
      · simpa [hne] using (hlisted t (List.mem_of_mem_head? ht)).resolve_right hne
  | removeUncreated hpc =>
    rw [hpc] at hknows
    exact h.remove (by rw [hpc]; rfl) (by rw [show s.threads _ = _ from hknows]; rfl) rfl
      (by rw [hpc]; rfl) hknows
  | freeUncreated hpc =>
    rw [hpc] at hknows
    exact h.free (by rw [hpc]; rfl) (by rw [hpc]; rfl)
      (by rw [show s.threads _ = _ from hknows]; rfl) rfl rfl trivial
  | sweepNext hpc =>
    rw [hpc] at hknows
    have hlisted : s.pc.listed? = none := by rw [hpc]; rfl
    refine h.of_same rfl rfl (fun _ => ⟨rfl, fun _ => rfl⟩) (fun _ => rfl) (by rw [hlisted]; rfl)
      (by rw [hpc]; rfl) ⟨hknows, fun t ht => ?_⟩
    obtain ⟨hne, hmem⟩ := slistNext_eq_some h.nodup ht
    exact ⟨hne, h.active_of_mem hlisted t hmem⟩
  | @sweepTest n temp value hpc _ =>
    rw [hpc] at hknows
    cases value with
    | true =>
      exact h.of_same rfl rfl (fun _ => ⟨rfl, fun _ => rfl⟩) (fun _ => rfl) (by rw [hpc]; rfl)
        (by rw [hpc]; rfl) hknows
    | false =>
      exact h.of_same rfl rfl (fun _ => ⟨rfl, fun _ => rfl⟩) (fun _ => rfl)
        (by rw [hpc]; exact listed_sweepFrom temp) (by rw [hpc]; exact inHand_sweepFrom temp)
        (knows_sweepFrom fun t ht => (hknows.2 t ht).2)
  | @sweepJoin n temp hpc _ =>
    rw [hpc] at hknows
    refine h.join (by rw [hpc]; rfl) (by rw [hpc]; rfl) hknows.1 rfl rfl
      ⟨Function.update_self _ _ _, fun t ht => ?_⟩
    rw [Function.update_of_ne (hknows.2 t ht).1]
    exact (hknows.2 t ht).2
  | sweepRemove hpc =>
    rw [hpc] at hknows
    exact h.remove (by rw [hpc]; rfl) (by rw [hknows.1]; rfl) rfl (by rw [hpc]; rfl) hknows
  | sweepFree hpc =>
    rw [hpc] at hknows
    exact h.free (by rw [hpc]; rfl) (by rw [hpc]; rfl) (by rw [hknows.1]; rfl) (by simp) (by simp)
      (knows_sweepFrom hknows.2)
  | @shutdownNext n e hpc he =>
    rw [hpc] at hknows
    obtain ⟨hhead, hactive⟩ := hknows
    obtain ⟨rest, hrest⟩ := List.head?_eq_some_iff.mp hhead
    have hjoin : joinFrom e n (slistNext s.head n) = .shutdownJoin n rest.head? := by
      rw [joinFrom, if_pos (h.threadId n e hactive he), hrest, slistNext_cons_self]
    rw [hjoin]
    exact h.of_same rfl rfl (fun _ => ⟨rfl, fun _ => rfl⟩) (fun _ => rfl) (by rw [hpc]; rfl)
      (by rw [hpc]; rfl)
      ⟨hactive, rest, hrest, rfl⟩
  | @shutdownJoin n temp e hpc _ _ =>
    rw [hpc] at hknows
    exact h.join (by rw [hpc]; rfl) (by rw [hpc]; rfl) hknows.1 (by simp) (by simp)
      (knows_closeFrom e (Function.update_self _ _ _) hknows.2)
  | shutdownClose hpc _ =>
    rw [hpc] at hknows
    exact h.of_same rfl rfl (fun _ => ⟨rfl, fun _ => rfl⟩) (fun _ => rfl) (by rw [hpc]; rfl)
      (by rw [hpc]; rfl)
      hknows
  | @shutdownRemove n temp hpc =>
    rw [hpc] at hknows
    obtain ⟨hn, rest, hrest, htemp⟩ := hknows
    refine h.remove (by rw [hpc]; rfl) (by rw [hn]; rfl) rfl (by rw [hpc]; rfl) ⟨hn, ?_⟩
    rw [hrest, List.erase_cons_head, htemp]
  | @shutdownFree n temp hpc =>
    rw [hpc] at hknows
    obtain ⟨hn, rfl⟩ := hknows
    have hlisted : s.pc.listed? = none := by rw [hpc]; rfl
    exact h.free hlisted (by rw [hpc]; rfl) (by rw [hn]; rfl) (by simp) (by simp)
      (knows_shutdownFrom (h.active_of_mem hlisted))
  | cleanup hpc =>
    rw [hpc] at hknows
    exact h.of_same rfl rfl (fun _ => ⟨rfl, fun _ => rfl⟩) (fun _ => rfl) (by rw [hpc]; rfl)
      (by rw [hpc]; rfl)
      hknows
  | begin hthread _ =>
    exact h.of_active_thread (by rw [hthread]; rfl) rfl
  | @thread n call c c' s₁ hthread _ heffect =>
    obtain ⟨hpc, hhead, hcount, hthreads, hentries⟩ := threadEffect_registry heffect
    have h₁ : s₁.RegInv := h.of_same hhead hcount (fun m => by simp [hthreads]) hentries
      (by rw [hpc]) (by rw [hpc]) (by rw [hpc, hhead, hthreads]; exact hknows)
    exact h₁.of_active_thread (by rw [hthreads, hthread]; rfl) rfl

theorem regInv_of_run {es : List MainCall} (hrun : (lts C).run init es = some s) : s.RegInv :=
  Lts.run_invariant regInv_init (fun _ _ _ h hstep => h.step (trans_of_step hstep)) hrun

/-! ### The calls of a run -/

/-- What a step does to the threads, and by which call. -/
theorem Trans.on_threads (h : s.RegInv) (htrans : Trans C s call s') :
    (s'.threads = s.threads ∧ (∀ n, call ≠ .join n) ∧ ∀ n id, call ≠ .create n id) ∨
    (∃ n, call = .join n ∧ (s.threads n).active = true ∧
      s'.threads = Function.update s.threads n .joined) ∨
    (∃ n, call = .create n none ∧ s.threads n = .none ∧
      s'.threads = Function.update s.threads n .failed) ∨
    (∃ n id, call = .create n (some id) ∧ s.threads n = .none ∧
      s'.threads = Function.update s.threads n .created) ∨
    ∃ n t, (s.threads n).active = true ∧ t.active = true ∧
      s'.threads = Function.update s.threads n t ∧ (∀ m, call ≠ .join m) ∧
      ∀ m id, call ≠ .create m id := by
  have hknows := h.knows
  cases htrans with
  | sweepJoin hpc _ =>
    rw [hpc] at hknows
    exact .inr (.inl ⟨_, rfl, hknows.1, rfl⟩)
  | shutdownJoin hpc _ _ =>
    rw [hpc] at hknows
    exact .inr (.inl ⟨_, rfl, hknows.1, rfl⟩)
  | createFailed hpc =>
    rw [hpc] at hknows
    exact .inr (.inr (.inl ⟨_, rfl, hknows, rfl⟩))
  | create hpc _ =>
    rw [hpc] at hknows
    exact .inr (.inr (.inr (.inl ⟨_, _, rfl, hknows, rfl⟩)))
  | begin hthread _ =>
    exact .inr (.inr (.inr (.inr ⟨_, .running _, by rw [hthread]; rfl, rfl, rfl, nofun, nofun⟩)))
  | @thread n call c c' s₁ hthread _ heffect =>
    refine .inr (.inr (.inr (.inr ⟨n, .running c', by rw [hthread]; rfl, rfl, ?_, nofun, nofun⟩)))
    rw [threads_setThread, (threadEffect_registry heffect).2.2.2.1]
  | _ => exact .inl ⟨rfl, nofun, nofun⟩

/-- What a step does to the list, and by which call. -/
theorem Trans.on_head (h : s.RegInv) (htrans : Trans C s call s') :
    (s'.head = s.head ∧ (∀ n, call ≠ .insert n) ∧ ∀ n, call ≠ .remove n) ∨
    (∃ n, call = .insert n ∧ s.pc = .insert n ∧ s'.pc = .create n ∧ s'.head = n :: s.head) ∨
    ∃ n, call = .remove n ∧ n ∈ s.head ∧ s'.head = s.head.erase n := by
  cases htrans with
  | insert hpc => exact .inr (.inl ⟨_, rfl, hpc, rfl, rfl⟩)
  | removeUncreated hpc =>
    exact .inr (.inr ⟨_, rfl, (h.mem_head _).mpr (.inr (by rw [hpc]; rfl)), rfl⟩)
  | sweepRemove hpc =>
    exact .inr (.inr ⟨_, rfl, (h.mem_head _).mpr (.inr (by rw [hpc]; rfl)), rfl⟩)
  | shutdownRemove hpc =>
    exact .inr (.inr ⟨_, rfl, (h.mem_head _).mpr (.inr (by rw [hpc]; rfl)), rfl⟩)
  | thread _ _ heffect =>
    exact .inl ⟨(threadEffect_registry heffect).2.1, nofun, nofun⟩
  | _ => exact .inl ⟨rfl, nofun, nofun⟩

/-- What a step does to the entries, and by which call. -/
theorem Trans.on_entries (htrans : Trans C s call s') :
    ((∀ n, (s'.entries n).isSome = (s.entries n).isSome) ∧ s'.entryCount = s.entryCount ∧
      ∀ n, call ≠ .free n) ∨
    (∃ e, s'.entries = Function.update s.entries s.entryCount (some e) ∧
      s'.entryCount = s.entryCount + 1 ∧ ∀ n, call ≠ .free n) ∨
    ∃ n, call = .free n ∧ s.pc.inHand? = some n ∧ s'.entries = Function.update s.entries n none ∧
      s'.entryCount = s.entryCount := by
  have hupdate : ∀ n (f : ThreadEntry → ThreadEntry) m,
      (Function.update s.entries n ((s.entries n).map f) m).isSome = (s.entries m).isSome := by
    intro n f m
    by_cases hm : m = n
    · subst hm; simp
    · simp [hm]
  cases htrans with
  | malloc hpc => exact .inr (.inl ⟨_, rfl, rfl, nofun⟩)
  | freeUnaccepted hpc => exact .inr (.inr ⟨_, rfl, by rw [hpc]; rfl, rfl, rfl⟩)
  | freeUncreated hpc => exact .inr (.inr ⟨_, rfl, by rw [hpc]; rfl, rfl, rfl⟩)
  | sweepFree hpc => exact .inr (.inr ⟨_, rfl, by rw [hpc]; rfl, rfl, rfl⟩)
  | shutdownFree hpc => exact .inr (.inr ⟨_, rfl, by rw [hpc]; rfl, rfl, rfl⟩)
  | accept _ _ => exact .inl ⟨hupdate _ _, rfl, nofun⟩
  | create _ _ => exact .inl ⟨hupdate _ _, rfl, nofun⟩
  | thread _ _ heffect =>
    obtain ⟨-, -, hcount, -, hentries⟩ := threadEffect_registry heffect
    refine .inl ⟨fun m => ?_, hcount, nofun⟩
    have hsome := congrArg Option.isSome (hentries m)
    simpa using hsome
  | _ => exact .inl ⟨fun _ => rfl, rfl, nofun⟩

variable {es : List MainCall}

/-- How often the calls about an entry were made, by what has become of the entry. -/
structure Counts (es : List MainCall) (s : Server) : Prop where
  insert : ∀ n, es.count (.insert n) = if s.threads n ≠ .none ∨ s.pc = .create n then 1 else 0
  remove : ∀ n, es.count (.remove n) + s.head.count n = es.count (.insert n)
  join : ∀ n, es.count (.join n) = if s.threads n = .joined then 1 else 0
  free : ∀ n, es.count (.free n) + (if (s.entries n).isSome then 1 else 0) =
    if n < s.entryCount then 1 else 0
  created : ∀ n, (∃ id, MainCall.create n (some id) ∈ es) ↔
    (s.threads n).active = true ∨ s.threads n = .joined
  failed : ∀ n, MainCall.create n none ∈ es ↔ s.threads n = .failed

theorem ne_of_active {t u : ThreadState} (ht : t.active = true) (hu : u.active = false) :
    t ≠ u := by
  rintro rfl
  rw [ht] at hu
  exact nomatch hu

theorem Counts.step_join (h : Counts es s) (hinv : s.RegInv) (htrans : Trans C s call s')
    (m : Nat) :
    (es ++ [call]).count (.join m) = if s'.threads m = .joined then 1 else 0 := by
  rw [List.count_append, List.count_singleton, h.join m]
  rcases htrans.on_threads hinv with
    ⟨hsame, hjoin, -⟩ | ⟨n, rfl, hn, hset⟩ | ⟨n, rfl, hn, hset⟩ | ⟨n, id, rfl, hn, hset⟩ |
      ⟨n, t, hn, ht, hset, hjoin, -⟩
  · simp [hsame, hjoin]
  · have hne : s.threads n ≠ .joined := ne_of_active hn rfl
    by_cases hm : m = n
    · subst hm; simp [hset, hne]
    · simp [hset, hm, Ne.symm hm]
  · by_cases hm : m = n
    · subst hm; simp [hset, hn]
    · simp [hset, hm]
  · by_cases hm : m = n
    · subst hm; simp [hset, hn]
    · simp [hset, hm]
  · have hne : s.threads n ≠ .joined := ne_of_active hn rfl
    have hne' : t ≠ .joined := ne_of_active ht rfl
    by_cases hm : m = n
    · subst hm; simp [hset, hne, hne', hjoin]
    · simp [hset, hm, hjoin]

theorem Counts.step_created (h : Counts es s) (hinv : s.RegInv) (htrans : Trans C s call s')
    (m : Nat) :
    ((∃ id, MainCall.create m (some id) ∈ es ++ [call]) ↔
      (s'.threads m).active = true ∨ s'.threads m = .joined) ∧
    (MainCall.create m none ∈ es ++ [call] ↔ s'.threads m = .failed) := by
  simp only [List.mem_append, List.mem_singleton, exists_or, h.created m, h.failed m]
  rcases htrans.on_threads hinv with
    ⟨hsame, -, hcreate⟩ | ⟨n, rfl, hn, hset⟩ | ⟨n, rfl, hn, hset⟩ | ⟨n, id, rfl, hn, hset⟩ |
      ⟨n, t, hn, ht, hset, -, hcreate⟩
  · simp [hsame, (hcreate _ _).symm]
  · have hne : s.threads n ≠ .failed := ne_of_active hn rfl
    by_cases hm : m = n
    · subst hm; simp [hset, hn, hne]
    · simp [hset, hm]
  · by_cases hm : m = n
    · subst hm; simp [hset, hn, ThreadState.active]
    · simp [hset, hm]
  · by_cases hm : m = n
    · subst hm; simp [hset, hn, ThreadState.active]
    · simp [hset, hm]
  · have hne : s.threads n ≠ .failed := ne_of_active hn rfl
    have hne' : t ≠ .failed := ne_of_active ht rfl
    by_cases hm : m = n
    · subst hm; simp [hset, hn, ht, hne, hne', (hcreate _ _).symm]
    · simp [hset, hm, (hcreate _ _).symm]

theorem sweepFrom_ne_create (temp : Option Nat) (m : Nat) : sweepFrom temp ≠ .create m := by
  cases temp <;> nofun

theorem shutdownFrom_ne_create (temp : Option Nat) (m : Nat) : shutdownFrom temp ≠ .create m := by
  cases temp <;> nofun

theorem closeFrom_ne_create (e : ThreadEntry) (temp : Option Nat) (m : Nat) :
    closeFrom e n temp ≠ .create m := by
  unfold closeFrom
  split <;> nofun

theorem joinFrom_ne_create (e : ThreadEntry) (temp : Option Nat) (m : Nat) :
    joinFrom e n temp ≠ .create m := by
  unfold joinFrom
  split
  · nofun
  · exact closeFrom_ne_create e temp m

/-- The main thread comes to `pthread_create` by inserting the entry, and leaves it with a thread
    that is created or refused. -/
theorem Trans.on_create (h : s.RegInv) (htrans : Trans C s call s') (m : Nat) :
    (call = .insert m ∧ ¬ (s.threads m ≠ .none ∨ s.pc = .create m) ∧ s'.pc = .create m) ∨
      call ≠ .insert m ∧
        ((s'.threads m ≠ .none ∨ s'.pc = .create m) ↔
          (s.threads m ≠ .none ∨ s.pc = .create m)) := by
  have hknows := h.knows
  have hactive : ∀ n, (s.threads n).active = true → s.threads n ≠ .none :=
    fun n hn => ne_of_active hn rfl
  cases htrans with
  | @insert n hpc =>
    rw [hpc] at hknows
    have hthread : s.threads n = .none := hknows
    by_cases hm : n = m
    · subst hm
      exact .inl ⟨rfl, by simp [hthread, hpc], rfl⟩
    · exact .inr ⟨by simp [hm], by simp [hpc, hm]⟩
  | @createFailed n hpc =>
    refine .inr ⟨nofun, ?_⟩
    by_cases hm : m = n
    · subst hm; simp [hpc]
    · simp [hm, hpc, Ne.symm hm]
  | @create n threadId hpc _ =>
    refine .inr ⟨nofun, ?_⟩
    by_cases hm : m = n
    · subst hm; simp [hpc]
    · simp [hm, hpc, Ne.symm hm, sweepFrom_ne_create]
  | @sweepJoin n temp hpc _ =>
    rw [hpc] at hknows
    refine .inr ⟨nofun, ?_⟩
    by_cases hm : m = n
    · subst hm; simp [hactive m hknows.1]
    · simp [hm, hpc]
  | @shutdownJoin n temp e hpc _ _ =>
    rw [hpc] at hknows
    refine .inr ⟨nofun, ?_⟩
    by_cases hm : m = n
    · subst hm; simp [hactive m hknows.1]
    · simp [hm, hpc, closeFrom_ne_create]
  | @begin n fd hthread _ =>
    refine .inr ⟨nofun, ?_⟩
    by_cases hm : m = n
    · subst hm; simp [hthread]
    · simp [hm]
  | @thread n call c c' s₁ hthread _ heffect =>
    obtain ⟨hpc, -, -, hthreads, -⟩ := threadEffect_registry heffect
    refine .inr ⟨nofun, ?_⟩
    by_cases hm : m = n
    · subst hm; simp [hthread]
    · simp [hm, hpc, hthreads]
  | @sweepTest n temp value hpc _ =>
    refine .inr ⟨nofun, ?_⟩
    cases value <;> simp [hpc, sweepFrom_ne_create]
  | _ =>
    refine .inr ⟨nofun, ?_⟩
    simp [*, sweepFrom_ne_create, shutdownFrom_ne_create, joinFrom_ne_create]

theorem Counts.step_insert (h : Counts es s) (hinv : s.RegInv) (htrans : Trans C s call s')
    (m : Nat) :
    (es ++ [call]).count (.insert m) =
      if s'.threads m ≠ .none ∨ s'.pc = .create m then 1 else 0 := by
  rw [List.count_append, List.count_singleton, h.insert m]
  rcases htrans.on_create hinv m with ⟨rfl, hno, hpc⟩ | ⟨hinsert, hsame⟩
  · rw [if_neg hno]
    simp [hpc]
  · simp only [hsame, beq_iff_eq, if_neg hinsert, Nat.add_zero]

theorem Counts.step_remove (h : Counts es s) (hinv : s.RegInv) (htrans : Trans C s call s')
    (m : Nat) :
    (es ++ [call]).count (.remove m) + s'.head.count m = (es ++ [call]).count (.insert m) := by
  have hm := h.remove m
  simp only [List.count_append, List.count_singleton]
  rcases htrans.on_head hinv with
    ⟨hsame, hinsert, hremove⟩ | ⟨n, rfl, -, -, hset⟩ | ⟨n, rfl, hn, hset⟩
  · simpa [hsame, hinsert, hremove] using hm
  · rw [hset, List.count_cons]
    simp only [beq_iff_eq, MainCall.insert.injEq, reduceCtorEq, if_false]
    omega
  · have hpos := List.count_pos_iff.mpr hn
    rw [hset, List.count_erase]
    simp only [beq_iff_eq, MainCall.remove.injEq, reduceCtorEq, if_false]
    by_cases hmn : n = m
    · subst hmn
      simp only [if_true]
      omega
    · simp only [if_neg hmn]
      omega

theorem Counts.step_free (h : Counts es s) (hinv : s.RegInv) (htrans : Trans C s call s')
    (m : Nat) :
    (es ++ [call]).count (.free m) + (if (s'.entries m).isSome then 1 else 0) =
      if m < s'.entryCount then 1 else 0 := by
  have hm := h.free m
  rw [List.count_append, List.count_singleton]
  rcases htrans.on_entries with
    ⟨hsame, hcount, hfree⟩ | ⟨e, hset, hcount, hfree⟩ | ⟨n, rfl, hhand, hset, hcount⟩
  · simpa [hsame, hcount, hfree] using hm
  · have hfresh := (hinv.fresh s.entryCount le_rfl).2
    by_cases hmn : m = s.entryCount
    · subst hmn
      simp [hfresh] at hm
      simp [hset, hcount, hfree, hm]
    · have hlt : m < s.entryCount + 1 ↔ m < s.entryCount := by omega
      simpa [hset, hcount, hfree, hmn, hlt] using hm
  · have hsome : (s.entries n).isSome := (hinv.live n).mpr (.inr hhand)
    by_cases hmn : n = m
    · subst hmn
      simpa [hset, hcount, hsome] using hm
    · simpa [hset, hcount, hmn, Ne.symm hmn] using hm

theorem counts_of_run (hrun : (lts C).run init es = some s) : Counts es s := by
  refine Lts.run_induction (P := Counts) ?_ (fun es s call s' hrun ih hstep => ?_) hrun
  · constructor <;> simp [init, ThreadState.active]
  · have htrans := trans_of_step hstep
    have hinv := regInv_of_run hrun
    exact ⟨ih.step_insert hinv htrans, ih.step_remove hinv htrans, ih.step_join hinv htrans,
      ih.step_free hinv htrans, fun m => (ih.step_created hinv htrans m).1,
      fun m => (ih.step_created hinv htrans m).2⟩

/-- A thread was created for entry `n`. -/
def Created (es : List MainCall) (n : Nat) : Prop := ∃ id, MainCall.create n (some id) ∈ es

/-- The life of the entries and threads in a run. -/
structure Lifecycle (C : Libc) (es : List MainCall) (s : Server) : Prop where
  atLoopTop : s.pc = .loopTop → s.head.Nodup ∧
    ∀ n, n ∈ s.head ↔ Created es n ∧ MainCall.join n ∉ es
  once : ∀ n, es.count (.join n) ≤ 1 ∧ es.count (.remove n) ≤ 1 ∧ es.count (.free n) ≤ 1
  afterJoin : ∀ n pre call post, es = pre ++ call :: post → Created es n →
    call = .remove n ∨ call = .free n → MainCall.join n ∈ pre
  allocated : (lts C).Along (fun s call => ∀ n, call.entry? = some n → (s.entries n).isSome) init es
  swept : s.pc = .loopTop → ∀ n, Created es n → MainCall.join n ∈ es →
    es.count (.remove n) = 1 ∧ es.count (.free n) = 1
  refused : s.pc = .loopTop ∨ s.pc = .returned → ∀ n, MainCall.create n none ∈ es →
    es.count (.free n) = 1
  atReturn : s.pc = .returned → s.head = [] ∧ ∀ n, Created es n →
    es.count (.join n) = 1 ∧ es.count (.remove n) = 1 ∧ es.count (.free n) = 1

/-- Every entry that a call is about is allocated when the call is made. -/
theorem RegInv.allocated (h : s.RegInv) (htrans : Trans C s call s') (hn : call.entry? = some n) :
    (s.entries n).isSome := by
  rw [h.live]
  have hknows := h.knows
  cases htrans <;> simp only [MainCall.entry?, Option.some.injEq, reduceCtorEq] at hn <;>
    subst hn
  case begin hthread _ => exact .inl (by rw [hthread]; rfl)
  case thread hthread _ _ => exact .inl (by rw [hthread]; rfl)
  case sweepNext hpc => rw [hpc] at hknows; exact .inl hknows
  case sweepTest hpc _ => rw [hpc] at hknows; exact .inl hknows.1
  case sweepJoin hpc _ => rw [hpc] at hknows; exact .inl hknows.1
  case shutdownNext hpc _ => rw [hpc] at hknows; exact .inl hknows.2
  case shutdownJoin hpc _ _ => rw [hpc] at hknows; exact .inl hknows.1
  all_goals
    refine .inr ?_
    simp only [MainPc.inHand?, *]

/-- An entry that is taken out is that of a joined or of a refused thread. -/
theorem RegInv.of_remove (h : s.RegInv) (htrans : Trans C s (.remove n) s') :
    s.threads n = .joined ∨ s.threads n = .failed := by
  have hknows := h.knows
  cases htrans with
  | removeUncreated hpc => rw [hpc] at hknows; exact .inr hknows
  | sweepRemove hpc => rw [hpc] at hknows; exact .inl hknows.1
  | shutdownRemove hpc => rw [hpc] at hknows; exact .inl hknows.1

/-- An entry that is freed is that of a joined or of a refused thread, or no thread was tried. -/
theorem RegInv.of_free (h : s.RegInv) (htrans : Trans C s (.free n) s') :
    s.threads n = .joined ∨ s.threads n = .failed ∨ s.threads n = .none := by
  have hknows := h.knows
  cases htrans with
  | freeUnaccepted hpc => rw [hpc] at hknows; exact .inr (.inr hknows)
  | freeUncreated hpc => rw [hpc] at hknows; exact .inr (.inl hknows)
  | sweepFree hpc => rw [hpc] at hknows; exact .inl hknows.1
  | shutdownFree hpc => rw [hpc] at hknows; exact .inl hknows.1

theorem Counts.mem_join (h : Counts es s) (n : Nat) :
    MainCall.join n ∈ es ↔ s.threads n = .joined := by
  rw [← List.count_pos_iff, h.join n]
  split <;> simp_all

theorem Counts.created_iff (h : Counts es s) (n : Nat) :
    Created es n ↔ (s.threads n).active = true ∨ s.threads n = .joined :=
  h.created n

/-- Where no entry is in hand, one that was inserted and is of no active thread is gone. -/
theorem Counts.gone (h : Counts es s) (hinv : s.RegInv) (hlisted : s.pc.listed? = none)
    (hhand : s.pc.inHand? = none) (hn : (s.threads n).active = false)
    (hne : s.threads n ≠ .none) : es.count (.remove n) = 1 ∧ es.count (.free n) = 1 := by
  have hremove := h.remove n
  have hfree := h.free n
  have hlt : n < s.entryCount := by
    by_contra hle
    exact hne (hinv.fresh n (Nat.not_lt.mp hle)).1
  have hmem : n ∉ s.head := by rw [hinv.mem_head, hn, hlisted]; simp
  have hentry : ¬ (s.entries n).isSome := by rw [hinv.live, hn, hhand]; simp
  rw [h.insert n, if_pos (.inl hne), List.count_eq_zero_of_not_mem hmem] at hremove
  rw [if_neg hentry, if_pos hlt] at hfree
  exact ⟨hremove, hfree⟩

/-- What the run before a step tells about the run. -/
theorem after_join {pre post : List MainCall} {call : MainCall}
    (hrun : (lts C).run init (pre ++ call :: post) = some s)
    (hcreated : Created (pre ++ call :: post) n) (hcall : call = .remove n ∨ call = .free n) :
    MainCall.join n ∈ pre := by
  obtain ⟨s₁, hpre, hrest⟩ := Lts.run_append_eq_some.mp hrun
  obtain ⟨s₂, hstep, -⟩ := Lts.run_cons_eq_some.mp hrest
  have hinv := regInv_of_run hpre
  have hcounts := counts_of_run hpre
  have hend := counts_of_run hrun
  rw [hcounts.mem_join]
  have hfailed : s₁.threads n ≠ .failed := by
    intro hfailed
    have hmem := (hcounts.failed n).mpr hfailed
    have hs := (hend.failed n).mp (List.mem_append_left _ hmem)
    rcases (hend.created_iff n).mp hcreated with hactive | hjoined
    · rw [hs] at hactive; exact nomatch hactive
    · rw [hs] at hjoined; exact nomatch hjoined
  rcases hcall with rfl | rfl
  · exact (hinv.of_remove (trans_of_step hstep)).resolve_right hfailed
  · refine (hinv.of_free (trans_of_step hstep)).resolve_right fun hno => ?_
    replace hno := hno.resolve_left hfailed
    -- the entry is freed, so no thread can be created for it later
    obtain ⟨id, hmem⟩ := hcreated
    rcases List.mem_append.mp hmem with hmem | hmem
    · rcases (hcounts.created_iff n).mp ⟨id, hmem⟩ with h | h
      · rw [hno] at h; exact nomatch h
      · rw [hno] at h; exact nomatch h
    · replace hmem := (List.mem_cons.mp hmem).resolve_left nofun
      obtain ⟨mid, post', rfl⟩ := List.append_of_mem hmem
      have hrun' : (lts C).run init
          ((pre ++ .free n :: mid) ++ .create n (some id) :: post') = some s := by
        simpa using hrun
      obtain ⟨s₃, hmid, hrest⟩ := Lts.run_append_eq_some.mp hrun'
      obtain ⟨s₄, hstep', -⟩ := Lts.run_cons_eq_some.mp hrest
      have hfree := (counts_of_run hmid).free n
      rw [if_pos ((regInv_of_run hmid).allocated (trans_of_step hstep') rfl)] at hfree
      have hpos : 0 < (pre ++ MainCall.free n :: mid).count (.free n) :=
        List.count_pos_iff.mpr (by simp)
      split at hfree <;> omega

/-- The thread registry of the server, in every run: at the top of the accept loop the list
    holds the entries of the threads created and not joined; every thread is joined once at
    most, and its entry is taken out of the list and freed once and only after that; no entry is
    used that is freed; the entry of a refused thread is freed once; and when `main` returns the
    list is empty and every thread created is joined. -/
theorem registry_lifecycle (hrun : (lts C).run init es = some s) : Lifecycle C es s := by
  have hinv := regInv_of_run hrun
  have hcounts := counts_of_run hrun
  have hjoined : ∀ n, s.threads n = .joined → (s.threads n).active = false ∧ s.threads n ≠ .none :=
    fun n hn => by rw [hn]; exact ⟨rfl, nofun⟩
  have hfailed : ∀ n, s.threads n = .failed → (s.threads n).active = false ∧ s.threads n ≠ .none :=
    fun n hn => by rw [hn]; exact ⟨rfl, nofun⟩
  refine ⟨fun hpc => ⟨hinv.nodup, fun n => ?_⟩, fun n => ?_, ?_, ?_, fun hpc n hcreated hjoin => ?_,
    fun hpc n hrefused => ?_, fun hpc => ?_⟩
  · rw [hinv.mem_head, hcounts.created_iff, hcounts.mem_join, hpc]
    simp only [MainPc.listed?, reduceCtorEq, or_false]
    constructor
    · exact fun h => ⟨.inl h, ne_of_active h rfl⟩
    · exact fun h => h.1.resolve_right h.2
  · have hremove := hcounts.remove n
    have hfree := hcounts.free n
    rw [hcounts.insert n] at hremove
    rw [hcounts.join n]
    refine ⟨?_, ?_, ?_⟩
    · split <;> omega
    · split at hremove <;> omega
    · split at hfree <;> split at hfree <;> omega
  · rintro n pre call post rfl hcreated hcall
    exact after_join hrun hcreated hcall
  · rintro pre call post s₁ rfl hpre n hn
    obtain ⟨s₂, hpre', hrest⟩ := Lts.run_append_eq_some.mp hrun
    obtain rfl := Option.some.inj (hpre.symm.trans hpre')
    obtain ⟨s₃, hstep, -⟩ := Lts.run_cons_eq_some.mp hrest
    exact (regInv_of_run hpre).allocated (trans_of_step hstep) hn
  · obtain ⟨hn, hne⟩ := hjoined n ((hcounts.mem_join n).mp hjoin)
    exact hcounts.gone hinv (by rw [hpc]; rfl) (by rw [hpc]; rfl) hn hne
  · obtain ⟨hn, hne⟩ := hfailed n ((hcounts.failed n).mp hrefused)
    rcases hpc with hpc | hpc
    · exact (hcounts.gone hinv (by rw [hpc]; rfl) (by rw [hpc]; rfl) hn hne).2
    · exact (hcounts.gone hinv (by rw [hpc]; rfl) (by rw [hpc]; rfl) hn hne).2
  · have hknows := hinv.knows
    rw [hpc] at hknows
    have hhead : s.head = [] := hknows
    refine ⟨hhead, fun n hcreated => ?_⟩
    have hinactive : (s.threads n).active ≠ true := by
      intro hactive
      have hmem := (hinv.mem_head n).mpr (.inl hactive)
      rw [hhead] at hmem
      exact nomatch hmem
    have hn := ((hcounts.created_iff n).mp hcreated).resolve_left hinactive
    obtain ⟨hn', hne⟩ := hjoined n hn
    exact ⟨by rw [hcounts.join n, if_pos hn],
      hcounts.gone hinv (by rw [hpc]; rfl) (by rw [hpc]; rfl) hn' hne⟩

/-- One client, whose connection cannot open the device; the server is told to exit then. -/
def oneClient : List MainCall :=
  [.exitFlag false, .malloc (some 7), .accept (some 3), .insert 0, .create 0 (some 9), .next 0,
    .isDone 0 false, .begin 0, .thread 0 (.openWrite none), .thread 0 .setDone,
    .thread 0 (.close (some 3)), .exitFlag true, .next 0, .join 0, .close 0 3, .remove 0, .free 0,
    .cleanup]

theorem registry_lifecycle_oneClient :
    ∃ s, (lts .glibc).run init oneClient = some s ∧ s.pc = .returned ∧
      Lifecycle .glibc oneClient s :=
  ⟨((lts .glibc).run init oneClient).get (by decide), (Option.some_get _).symm, by decide,
    registry_lifecycle (Option.some_get _).symm⟩

end Server

end Aesd
