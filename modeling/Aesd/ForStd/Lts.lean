import Mathlib

/-!
# Labelled transition systems and their runs

A transition system whose step is a function of the state and the label, `none`
where the label is not possible in the state. A run is a list of labels taken
one after another. The rules below are the ones a verification needs: an
invariant that may also speak about the labels so far (`run_induction`), one
that speaks about the state alone (`run_invariant`), and what holds at every
step of a run (`Along`).

`ofCalls` turns a component that is called and answers into a transition system
whose labels are the calls together with their answers.
-/

/-- A transition system with labels `ε` over states `σ`. -/
structure Lts (σ ε : Type*) where
  step : σ → ε → Option σ

namespace Lts

variable {σ ε : Type*} (L : Lts σ ε)

/-- The state after the labels `es`, if they are possible one after another. -/
def run : σ → List ε → Option σ
  | s, [] => some s
  | s, e :: es => (L.step s e).bind fun s' => run s' es

variable {L}

@[simp] theorem run_nil (s : σ) : L.run s [] = some s := rfl

theorem run_cons (s : σ) (e : ε) (es : List ε) :
    L.run s (e :: es) = (L.step s e).bind fun s' => L.run s' es := rfl

theorem run_cons_eq_some {s s' : σ} {e : ε} {es : List ε} :
    L.run s (e :: es) = some s' ↔ ∃ m, L.step s e = some m ∧ L.run m es = some s' := by
  simp only [run_cons, Option.bind_eq_some_iff]

theorem run_append (s : σ) (es fs : List ε) :
    L.run s (es ++ fs) = (L.run s es).bind fun m => L.run m fs := by
  induction es generalizing s with
  | nil => rfl
  | cons e es ih =>
    simp only [List.cons_append, run_cons, ih, Option.bind_assoc]

theorem run_append_eq_some {s s' : σ} {es fs : List ε} :
    L.run s (es ++ fs) = some s' ↔ ∃ m, L.run s es = some m ∧ L.run m fs = some s' := by
  simp only [run_append, Option.bind_eq_some_iff]

theorem run_concat_eq_some {s s' : σ} {es : List ε} {e : ε} :
    L.run s (es ++ [e]) = some s' ↔ ∃ m, L.run s es = some m ∧ L.step m e = some s' := by
  simp only [run_append_eq_some, run_cons_eq_some, run_nil, Option.some.injEq,
    exists_eq_right]

/-! ## Induction along a run -/

/-- What holds at the start and is kept by every step, with the labels so far in
    view, holds after every run. -/
theorem run_induction {P : List ε → σ → Prop} {s₀ : σ} (start : P [] s₀)
    (next : ∀ es s e s', L.run s₀ es = some s → P es s → L.step s e = some s' →
      P (es ++ [e]) s')
    {es : List ε} {s : σ} (h : L.run s₀ es = some s) : P es s := by
  induction es using List.reverseRecOn generalizing s with
  | nil =>
    obtain rfl := Option.some.inj h
    exact start
  | append_singleton es e ih =>
    obtain ⟨m, hm, hstep⟩ := run_concat_eq_some.mp h
    exact next es m e s hm (ih hm) hstep

/-- An invariant of the state alone. -/
theorem run_invariant {I : σ → Prop} {s₀ : σ} (start : I s₀)
    (next : ∀ s e s', I s → L.step s e = some s' → I s')
    {es : List ε} {s : σ} (h : L.run s₀ es = some s) : I s :=
  run_induction (P := fun _ s => I s) start (fun _ s e s' _ hI hs => next s e s' hI hs) h

/-! ## What holds at every step of a run -/

variable (L) in
/-- `P` holds of the state before and the label, at every step of the run. -/
def Along (P : σ → ε → Prop) (s₀ : σ) (es : List ε) : Prop :=
  ∀ pre e post s, es = pre ++ e :: post → L.run s₀ pre = some s → P s e

theorem along_nil (P : σ → ε → Prop) (s₀ : σ) : L.Along P s₀ [] := by
  intro pre e post s h
  simp at h

theorem along_concat {P : σ → ε → Prop} {s₀ : σ} {es : List ε} {e : ε} :
    L.Along P s₀ (es ++ [e]) ↔
      L.Along P s₀ es ∧ ∀ s, L.run s₀ es = some s → P s e := by
  constructor
  · intro h
    refine ⟨fun pre e' post s he hs => ?_, fun s hs => h es e [] s rfl hs⟩
    exact h pre e' (post ++ [e]) s (by rw [he]; simp) hs
  · rintro ⟨h, hlast⟩ pre e' post s he hs
    rcases List.eq_nil_or_concat post with rfl | ⟨post', x, rfl⟩
    · obtain ⟨rfl, rfl⟩ : es = pre ∧ e = e' := by simpa using he
      exact hlast s hs
    · rw [List.concat_eq_append, ← List.cons_append, ← List.append_assoc] at he
      exact h pre e' post' s (List.append_inj_left' he rfl) hs

theorem Along.mono {P Q : σ → ε → Prop} {s₀ : σ} {es : List ε}
    (hPQ : ∀ s e, P s e → Q s e) (h : L.Along P s₀ es) : L.Along Q s₀ es :=
  fun pre e post s he hs => hPQ s e (h pre e post s he hs)

/-- Labels that share a start share what holds along it. -/
theorem Along.of_append {P : σ → ε → Prop} {s₀ : σ} {es fs : List ε}
    (h : L.Along P s₀ (es ++ fs)) : L.Along P s₀ es :=
  fun pre e post s he hs => h pre e (post ++ fs) s (by rw [he]; simp) hs

/-! ## What is read off a run -/

variable (L) in
/-- What `f` reads off the steps of a run one after another, each from its label and the state
    after it. -/
def collect {β : Type*} (f : ε → σ → List β) : σ → List ε → List β
  | _, [] => []
  | s, e :: es =>
    match L.step s e with
    | none => []
    | some s' => f e s' ++ collect f s' es

theorem collect_concat {β : Type*} {f : ε → σ → List β} {s m s' : σ} {es : List ε} {e : ε}
    (hrun : L.run s es = some m) (hstep : L.step m e = some s') :
    L.collect f s (es ++ [e]) = L.collect f s es ++ f e s' := by
  induction es generalizing s with
  | nil =>
    obtain rfl := Option.some.inj hrun
    simp only [List.nil_append, collect, hstep, List.append_nil]
  | cons e₀ es ih =>
    obtain ⟨s₁, hs₁, hrun⟩ := run_cons_eq_some.mp hrun
    simp only [List.cons_append, collect, hs₁, ih hrun, List.append_assoc]

/-- What is read off the start of a run comes first. -/
theorem prefix_collect_append {β : Type*} (f : ε → σ → List β) (s : σ) (es fs : List ε) :
    L.collect f s es <+: L.collect f s (es ++ fs) := by
  induction es generalizing s with
  | nil => exact List.nil_prefix
  | cons e es ih =>
    simp only [List.cons_append, collect]
    split
    · exact List.prefix_rfl
    · exact (List.prefix_append_right_inj _).mpr (ih _)

/-! ## Simulation -/

section Simulation

variable {α : Type*}

/-- Labels taken one after another in a system whose steps are a relation. -/
inductive Steps (S : α → ε → α → Prop) (a : α) : List ε → α → Prop
  | nil : Steps S a [] a
  | concat {es : List ε} {e : ε} {b c : α} : Steps S a es b → S b e c → Steps S a (es ++ [e]) c

/-- A step of the one system for every step of the other, between states that correspond, makes
    a run of the one for every run of the other. -/
theorem run_simulation {S : α → ε → α → Prop} {R : σ → α → Prop}
    (next : ∀ s a e s', R s a → L.step s e = some s' → ∃ b, S a e b ∧ R s' b)
    {s₀ s : σ} {a₀ : α} (start : R s₀ a₀) {es : List ε} (h : L.run s₀ es = some s) :
    ∃ a, Steps S a₀ es a ∧ R s a := by
  refine run_induction (P := fun es s => ∃ a, Steps S a₀ es a ∧ R s a) ⟨a₀, .nil, start⟩
    (fun es s e s' _ ih hstep => ?_) h
  obtain ⟨a, hsteps, hR⟩ := ih
  obtain ⟨b, hS, hR'⟩ := next s a e s' hR hstep
  exact ⟨b, .concat hsteps hS, hR'⟩

/-- Two systems whose steps go together wherever a run of the first one leads have the same runs,
    and those lead to states that correspond. -/
theorem run_bisimulation {τ : Type*} {M : Lts τ ε} {R : σ → τ → Prop} {s₀ : σ} {t₀ : τ}
    (next : ∀ es s t e, L.run s₀ es = some s → R s t →
      Option.Rel R (L.step s e) (M.step t e))
    (start : R s₀ t₀) (es : List ε) : Option.Rel R (L.run s₀ es) (M.run t₀ es) := by
  induction es using List.reverseRecOn with
  | nil => exact .some start
  | append_singleton es e ih =>
    rw [run_append, run_append]
    cases hs : L.run s₀ es with
    | none =>
      rw [hs] at ih
      generalize M.run t₀ es = o at ih
      cases ih
      exact .none
    | some s =>
      rw [hs] at ih
      generalize M.run t₀ es = o at ih
      cases ih with
      | some hR =>
        have hlast := next es s _ e hs hR
        simpa only [Option.bind_some, run_cons, run_nil, Option.bind_fun_some] using hlast

/-- What every step of the relation keeps holds of all it leads to. -/
theorem Steps.invariant {S : α → ε → α → Prop} {I : α → Prop} {a b : α} {es : List ε}
    (h : Steps S a es b) (start : I a) (next : ∀ a e b, I a → S a e b → I b) : I b := by
  induction h with
  | nil => exact start
  | concat _ hS ih => exact next _ _ _ ih hS

end Simulation

/-! ## Components that are called and answer -/

section Calls

variable {ι ο : Type*} [DecidableEq ο]

/-- A component's calls as labels: a label is a call with the answer it gets. -/
def ofCalls (f : σ → ι → Option (ο × σ)) : Lts σ (ι × ο) where
  step s c := (f s c.1).bind fun r => if r.1 = c.2 then some r.2 else none

variable {f : σ → ι → Option (ο × σ)}

theorem ofCalls_step_eq_some {s s' : σ} {c : ι × ο} :
    (ofCalls f).step s c = some s' ↔ f s c.1 = some (c.2, s') := by
  simp only [ofCalls, Option.bind_eq_some_iff, Option.ite_none_right_eq_some,
    Option.some.injEq, Prod.exists]
  constructor
  · rintro ⟨o, m, hf, rfl, rfl⟩; exact hf
  · intro hf; exact ⟨c.2, s', hf, rfl, rfl⟩

/-- A component that answers every call keeps answering: every sequence of calls
    is a run, with the answers that it gets. -/
theorem ofCalls_exists_run {I : σ → Prop}
    (answers : ∀ s i, I s → ∃ o s', f s i = some (o, s') ∧ I s')
    (is : List ι) {s₀ : σ} (start : I s₀) :
    ∃ cs s, cs.map Prod.fst = is ∧ (ofCalls f).run s₀ cs = some s := by
  induction is generalizing s₀ with
  | nil => exact ⟨[], s₀, rfl, rfl⟩
  | cons i is ih =>
    obtain ⟨o, m, hf, hm⟩ := answers s₀ i start
    obtain ⟨cs, s, hcs, hrun⟩ := ih hm
    refine ⟨(i, o) :: cs, s, by rw [List.map_cons, hcs], ?_⟩
    exact run_cons_eq_some.mpr ⟨m, ofCalls_step_eq_some.mpr hf, hrun⟩

end Calls

end Lts
