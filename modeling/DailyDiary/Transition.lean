/-
Transition systems with partial steps, their runs, and the rules the rest of
the development proves its run properties with.

A system is a type of states, a predicate for the states a run may start in and
a partial step function: `none` says that the event is not enabled. A run is a
list of events, so a counterexample is a list of events that a kernel can
evaluate, and a property of all runs is an induction on the list.

Three ways of speaking about a run are used: what holds of its last state
(`run_invariant`), what holds of each of its steps (`Always`) and what holds in
every state it passes through (`Throughout`). What is observed of its steps is a
list (`collect`). The last section composes a family of components over one shared
part, which is how any number of clients of one server is modelled.
-/
import Mathlib.Logic.Function.Basic
import Mathlib.Data.Option.Basic
import Mathlib.Data.List.Induction

set_option autoImplicit false

namespace Transition

/-! ## Systems and runs -/

/-- A partial, event-labelled transition system. -/
structure System (σ ε : Type*) where
  init : σ → Prop
  step : σ → ε → Option σ

namespace System

variable {σ ε : Type*} (S : System σ ε)

/-- The state a list of events leads to; `none` when one of them is not enabled
where it comes. -/
def run (s : σ) : List ε → Option σ
  | [] => some s
  | e :: es => (S.step s e).bind fun s' => run s' es

@[simp] theorem run_nil (s : σ) : S.run s [] = some s := rfl

theorem run_cons (s : σ) (e : ε) (es : List ε) :
    S.run s (e :: es) = (S.step s e).bind fun s' => S.run s' es := rfl

theorem run_cons_eq_some {s t : σ} {e : ε} {es : List ε} :
    S.run s (e :: es) = some t ↔ ∃ s', S.step s e = some s' ∧ S.run s' es = some t := by
  rw [run_cons, Option.bind_eq_some_iff]

theorem run_three_eq_some {s t : σ} {e₁ e₂ e₃ : ε} :
    S.run s [e₁, e₂, e₃] = some t ↔
      ∃ s₁ s₂, S.step s e₁ = some s₁ ∧ S.step s₁ e₂ = some s₂ ∧ S.step s₂ e₃ = some t := by
  simp [run_cons_eq_some]

theorem run_append_eq_some {s t : σ} {es fs : List ε} :
    S.run s (es ++ fs) = some t ↔ ∃ s', S.run s es = some s' ∧ S.run s' fs = some t := by
  induction es generalizing s with
  | nil => simp
  | cons e es ih =>
    rw [List.cons_append, run_cons_eq_some]
    constructor
    · rintro ⟨s₁, hs, hr⟩
      obtain ⟨s₂, h₁, h₂⟩ := ih.mp hr
      exact ⟨s₂, (S.run_cons_eq_some).mpr ⟨s₁, hs, h₁⟩, h₂⟩
    · rintro ⟨s₂, h₁, h₂⟩
      obtain ⟨s₁, hs, hr⟩ := (S.run_cons_eq_some).mp h₁
      exact ⟨s₁, hs, ih.mpr ⟨s₂, hr, h₂⟩⟩

/-- What is left of a run after its first part. -/
theorem run_rest {s s' t : σ} {es fs : List ε} (hr : S.run s (es ++ fs) = some t)
    (h : S.run s es = some s') : S.run s' fs = some t := by
  obtain ⟨s'', h', hrest⟩ := (S.run_append_eq_some).mp hr
  obtain rfl := Option.some.inj (h.symm.trans h')
  exact hrest

/-- The step in the middle of a run. -/
theorem run_middle {s s' t : σ} {before after : List ε} {e : ε}
    (hr : S.run s (before ++ e :: after) = some t) (h : S.run s before = some s') :
    ∃ s'', S.step s' e = some s'' ∧ S.run s'' after = some t :=
  (S.run_cons_eq_some).mp (S.run_rest hr h)

/-- The states some run from an initial state ends in. -/
def Reachable (s : σ) : Prop :=
  ∃ s₀ es, S.init s₀ ∧ S.run s₀ es = some s

variable {S} in
theorem Reachable.run {s t : σ} {es : List ε} (hs : S.Reachable s) (hr : S.run s es = some t) :
    S.Reachable t := by
  obtain ⟨s₀, es₀, hi, h₀⟩ := hs
  exact ⟨s₀, es₀ ++ es, hi, (S.run_append_eq_some).mpr ⟨s, h₀, hr⟩⟩

variable {S} in
theorem Reachable.step {s t : σ} {e : ε} (hs : S.Reachable s) (h : S.step s e = some t) :
    S.Reachable t := by
  have hr : S.run s [e] = some t := (S.run_cons_eq_some).mpr ⟨t, h, rfl⟩
  exact hs.run hr

/-- The states a run from `s` passes through after it has left `s`. -/
def states (s : σ) : List ε → List σ
  | [] => []
  | e :: es =>
    match S.step s e with
    | none => []
    | some s' => s' :: states s' es

theorem states_cons {s s' : σ} {e : ε} (h : S.step s e = some s') (es : List ε) :
    S.states s (e :: es) = s' :: S.states s' es := by
  rw [states, h]

theorem run_of_mem_states {s t : σ} {es : List ε} (h : t ∈ S.states s es) :
    ∃ fs, S.run s fs = some t := by
  induction es generalizing s with
  | nil => cases h
  | cons e es ih =>
    cases hs : S.step s e with
    | none => simp [states, hs] at h
    | some s' =>
      rw [S.states_cons hs] at h
      rcases List.mem_cons.mp h with rfl | h
      · exact ⟨[e], (S.run_cons_eq_some).mpr ⟨t, hs, rfl⟩⟩
      · obtain ⟨fs, hfs⟩ := ih h
        exact ⟨e :: fs, (S.run_cons_eq_some).mpr ⟨s', hs, hfs⟩⟩

/-- What is read off the states of a run is in the end what its last state shows. -/
theorem getLastD_map_states {α : Type*} (f : σ → α) {s t : σ} {es : List ε}
    (hr : S.run s es = some t) : ((S.states s es).map f).getLastD (f s) = f t := by
  induction es generalizing s with
  | nil =>
    obtain rfl : s = t := by simpa using hr
    rfl
  | cons e es ih =>
    obtain ⟨s', h₁, h₂⟩ := (S.run_cons_eq_some).mp hr
    rw [S.states_cons h₁, List.map_cons, List.getLastD_cons]
    exact ih h₂

/-! ## What holds of every step, and in every state, of a run -/

/-- Every step of the run from `s` is taken in a state and with an event that
`G` admits. -/
def Always (G : σ → ε → Prop) : σ → List ε → Prop
  | _, [] => True
  | s, e :: es => G s e ∧ ∀ s', S.step s e = some s' → Always G s' es

/-- The steps of one run can be checked one by one. -/
def decidableAlways {G : σ → ε → Prop} [∀ s e, Decidable (G s e)] :
    (s : σ) → (es : List ε) → Decidable (S.Always G s es)
  | _, [] => isTrue trivial
  | s, e :: es =>
    match h : S.step s e with
    | none => decidable_of_iff (G s e) ⟨fun hG => ⟨hG, fun s' hs => by simp [h] at hs⟩, And.left⟩
    | some s' =>
      have : Decidable (S.Always G s' es) := decidableAlways s' es
      decidable_of_iff (G s e ∧ S.Always G s' es)
        ⟨fun hG => ⟨hG.1, fun s'' hs => Option.some.inj (h.symm.trans hs) ▸ hG.2⟩,
          fun hG => ⟨hG.1, hG.2 s' h⟩⟩

instance {G : σ → ε → Prop} [∀ s e, Decidable (G s e)] (s : σ) (es : List ε) :
    Decidable (S.Always G s es) :=
  S.decidableAlways s es

/-- `P` holds in every state the run from `s` passes through, both ends
included. -/
def Throughout (P : σ → Prop) : σ → List ε → Prop
  | s, [] => P s
  | s, e :: es => P s ∧ ∀ s', S.step s e = some s' → Throughout P s' es

theorem throughout_head {P : σ → Prop} {s : σ} {es : List ε} (h : S.Throughout P s es) : P s := by
  cases es with
  | nil => exact h
  | cons e es => exact h.1

theorem always_append {G : σ → ε → Prop} {s t : σ} {es fs : List ε}
    (h : S.Always G s (es ++ fs)) (hr : S.run s es = some t) : S.Always G t fs := by
  induction es generalizing s with
  | nil =>
    obtain rfl : s = t := by simpa using hr
    exact h
  | cons e es ih =>
    obtain ⟨s', hs, hr'⟩ := (S.run_cons_eq_some).mp hr
    exact ih (h.2 s' hs) hr'

theorem always_prefix {G : σ → ε → Prop} {s : σ} {es fs : List ε}
    (h : S.Always G s (es ++ fs)) : S.Always G s es := by
  induction es generalizing s with
  | nil => trivial
  | cons e es ih => exact ⟨h.1, fun s' hs => ih (h.2 s' hs)⟩

theorem always_and {G H : σ → ε → Prop} {s : σ} {es : List ε} (hG : S.Always G s es)
    (hH : S.Always H s es) : S.Always (fun s e => G s e ∧ H s e) s es := by
  induction es generalizing s with
  | nil => trivial
  | cons e es ih => exact ⟨⟨hG.1, hH.1⟩, fun s' hs => ih (hG.2 s' hs) (hH.2 s' hs)⟩

/-- The steps of a run, by what comes before each. -/
theorem always_iff {G : σ → ε → Prop} {s : σ} {es : List ε} :
    S.Always G s es ↔ ∀ before e after t, es = before ++ e :: after →
      S.run s before = some t → G t e := by
  constructor
  · rintro h before e after t rfl hr
    exact (S.always_append h hr).1
  · intro h
    induction es generalizing s with
    | nil => trivial
    | cons e es ih =>
      refine ⟨h [] e es s rfl rfl, ?_⟩
      intro s' hs
      refine ih ?_
      rintro before f after t rfl hr
      exact h (e :: before) f after t rfl ((S.run_cons_eq_some).mpr ⟨s', hs, hr⟩)

theorem always_mono {G H : σ → ε → Prop} {s : σ} {es : List ε}
    (hGH : ∀ s, ∀ e ∈ es, G s e → H s e) (h : S.Always G s es) : S.Always H s es := by
  induction es generalizing s with
  | nil => trivial
  | cons e es ih =>
    refine ⟨hGH s e List.mem_cons_self h.1, ?_⟩
    intro s' hs
    exact ih (fun t f hf => hGH t f (List.mem_cons_of_mem e hf)) (h.2 s' hs)

/-- **The invariant rule, for guarded runs.** What every step admitted by `G`
preserves holds at the end of a run all of whose steps `G` admits. -/
theorem run_invariant {G : σ → ε → Prop} {P : σ → Prop}
    (hstep : ∀ s e s', P s → G s e → S.step s e = some s' → P s')
    {s t : σ} {es : List ε} (hs : P s) (hG : S.Always G s es) (hr : S.run s es = some t) :
    P t := by
  induction es generalizing s with
  | nil =>
    obtain rfl : s = t := by simpa using hr
    exact hs
  | cons e es ih =>
    obtain ⟨s', h₁, h₂⟩ := (S.run_cons_eq_some).mp hr
    exact ih (hstep s e s' hs hG.1 h₁) (hG.2 s' h₁) h₂

/-- Where every admitted event is enabled, and the invariant kept, the admitted events are a
run. -/
theorem exists_run {G : σ → ε → Prop} {P : σ → Prop}
    (hstep : ∀ s e, P s → G s e → ∃ s', S.step s e = some s' ∧ P s') {s : σ} {es : List ε}
    (h : P s) (hes : S.Always G s es) : ∃ t, S.run s es = some t ∧ P t := by
  induction es generalizing s with
  | nil => exact ⟨s, rfl, h⟩
  | cons e es ih =>
    obtain ⟨s', hs, h'⟩ := hstep s e h hes.1
    obtain ⟨t, hr, ht⟩ := ih h' (hes.2 s' hs)
    exact ⟨t, (S.run_cons_eq_some).mpr ⟨s', hs, hr⟩, ht⟩

theorem always_true (s : σ) (es : List ε) : S.Always (fun _ _ => True) s es := by
  induction es generalizing s with
  | nil => trivial
  | cons e es ih => exact ⟨trivial, fun s' _ => ih s'⟩

/-- The invariant rule without a guard. -/
theorem run_invariant' {P : σ → Prop}
    (hstep : ∀ s e s', P s → S.step s e = some s' → P s')
    {s t : σ} {es : List ε} (hs : P s) (hr : S.run s es = some t) : P t :=
  S.run_invariant (G := fun _ _ => True) (fun s e s' h _ => hstep s e s' h) hs
    (S.always_true s es) hr

/-- **The cause rule.** What holds at the end of a run held at its start, or some
step of the run has brought it about. -/
theorem exists_cause {P : σ → Prop} {C : σ → ε → Prop}
    (hstep : ∀ s e s', S.step s e = some s' → P s' → P s ∨ C s e)
    {s t : σ} {es : List ε} (hr : S.run s es = some t) (ht : P t) :
    P s ∨ ∃ before e between s₁ s₂, es = before ++ e :: between ∧ S.run s before = some s₁ ∧
      C s₁ e ∧ S.step s₁ e = some s₂ ∧ S.run s₂ between = some t := by
  induction es generalizing s with
  | nil =>
    obtain rfl : s = t := by simpa using hr
    exact Or.inl ht
  | cons e es ih =>
    obtain ⟨s', h₁, h₂⟩ := (S.run_cons_eq_some).mp hr
    rcases ih h₂ with hs' | ⟨before, e', between, s₁, s₂, rfl, hb, hC, hs₂, hbetween⟩
    · rcases hstep s e s' h₁ hs' with hs | hC
      · exact Or.inl hs
      · exact Or.inr ⟨[], e, es, s, s', rfl, rfl, hC, h₁, h₂⟩
    · exact Or.inr ⟨e :: before, e', between, s₁, s₂, rfl,
        (S.run_cons_eq_some).mpr ⟨s', h₁, hb⟩, hC, hs₂, hbetween⟩

/-- **Induction on a run.** What is said of a run and its last state holds when it
holds of the empty run and survives one more step. -/
theorem run_induction {P : List ε → σ → Prop} {s : σ} (hnil : P [] s)
    (hstep : ∀ es t e t', S.run s es = some t → P es t → S.step t e = some t' →
      P (es ++ [e]) t')
    {t : σ} {es : List ε} (hr : S.run s es = some t) : P es t := by
  induction es using List.reverseRecOn generalizing t with
  | nil =>
    obtain rfl : s = t := by simpa using hr
    exact hnil
  | append_singleton es e ih =>
    obtain ⟨t₀, h₁, h₂⟩ := (S.run_append_eq_some).mp hr
    obtain ⟨t₁, hs, hlast⟩ := (S.run_cons_eq_some).mp h₂
    obtain rfl : t₁ = t := by simpa using hlast
    exact hstep es t₀ e t₁ h₁ (ih h₁) hs

/-- What holds initially and is preserved by every step holds in every
reachable state. -/
theorem reachable_invariant {P : σ → Prop} (hinit : ∀ s, S.init s → P s)
    (hstep : ∀ s e s', P s → S.step s e = some s' → P s') {s : σ} (hs : S.Reachable s) :
    P s := by
  obtain ⟨s₀, es, hi, hr⟩ := hs
  exact S.run_invariant' hstep (hinit s₀ hi) hr

/-- The guarded invariant rule, for all states on the way. -/
theorem throughout_of_invariant {G : σ → ε → Prop} {I P : σ → Prop}
    (hstep : ∀ s e s', I s → G s e → S.step s e = some s' → I s')
    (hP : ∀ s, I s → P s) {s : σ} {es : List ε} (hs : I s) (hG : S.Always G s es) :
    S.Throughout P s es := by
  induction es generalizing s with
  | nil => exact hP s hs
  | cons e es ih =>
    exact ⟨hP s hs, fun s' h => ih (hstep s e s' hs hG.1 h) (hG.2 s' h)⟩

/-- **The exact guard rule.** Where the steps that `G` admits keep an invariant that
implies `P`, and every other step breaks `P`, a run keeps `P` throughout exactly when `G`
admits all its steps. -/
theorem throughout_iff_always {G : σ → ε → Prop} {I P : σ → Prop}
    (hkeep : ∀ s e s', I s → G s e → S.step s e = some s' → I s') (hP : ∀ s, I s → P s)
    (hbreak : ∀ s e s', I s → ¬ G s e → S.step s e = some s' → ¬ P s')
    {s t : σ} {es : List ε} (hs : I s) (hr : S.run s es = some t) :
    S.Throughout P s es ↔ S.Always G s es := by
  constructor
  · intro h
    induction es generalizing s with
    | nil => trivial
    | cons e es ih =>
      obtain ⟨s₁, h₁, h₂⟩ := (S.run_cons_eq_some).mp hr
      have hrest := h.2 s₁ h₁
      have hG : G s e := by
        by_contra hno
        exact hbreak s e s₁ hs hno h₁ (S.throughout_head hrest)
      refine ⟨hG, ?_⟩
      intro s₂ hs₂
      obtain rfl : s₁ = s₂ := Option.some.inj (h₁.symm.trans hs₂)
      exact ih (hkeep s e s₁ hs hG h₁) h₂ hrest
  · intro h
    exact S.throughout_of_invariant hkeep hP hs h

/-! ## What is observed of a run -/

/-- What `f` observes of the steps of the run from `s`, in order. -/
def collect {α : Type*} (f : σ → ε → Option α) : σ → List ε → List α
  | _, [] => []
  | s, e :: es =>
    match S.step s e with
    | none => []
    | some s' => (f s e).toList ++ collect f s' es

theorem collect_cons {α : Type*} {f : σ → ε → Option α} {s s' : σ} {e : ε}
    (h : S.step s e = some s') (es : List ε) :
    S.collect f s (e :: es) = (f s e).toList ++ S.collect f s' es := by
  rw [collect, h]

/-- What one more step adds. -/
theorem collect_concat {α : Type*} {f : σ → ε → Option α} {s t t' : σ} {e : ε} {es : List ε}
    (hr : S.run s es = some t) (h : S.step t e = some t') :
    S.collect f s (es ++ [e]) = S.collect f s es ++ (f t e).toList := by
  induction es generalizing s with
  | nil =>
    obtain rfl : s = t := by simpa using hr
    rw [List.nil_append, S.collect_cons h]
    simp [collect]
  | cons e' es ih =>
    obtain ⟨s', h₁, h₂⟩ := (S.run_cons_eq_some).mp hr
    rw [List.cons_append, S.collect_cons h₁, S.collect_cons h₁, ih h₂, List.append_assoc]

/-- Every observation is made at some step of the run. -/
theorem exists_of_mem_collect {α : Type*} {f : σ → ε → Option α} {s : σ} {es : List ε} {a : α}
    (h : a ∈ S.collect f s es) : ∃ before e after t t', es = before ++ e :: after ∧
      S.run s before = some t ∧ S.step t e = some t' ∧ f t e = some a := by
  induction es generalizing s with
  | nil => cases h
  | cons e es ih =>
    cases hs : S.step s e with
    | none => simp [collect, hs] at h
    | some s' =>
      rw [S.collect_cons hs] at h
      rcases List.mem_append.mp h with h | h
      · exact ⟨[], e, es, s, s', rfl, rfl, hs, Option.mem_toList.mp h⟩
      · obtain ⟨before, e', after, t, t', rfl, hr, ht, hf⟩ := ih h
        exact ⟨e :: before, e', after, t, t', rfl, (S.run_cons_eq_some).mpr ⟨s', hs, hr⟩, ht, hf⟩

/-- **The rule of the last observation.** Where every step hands on what it observes,
or what held before when it observes nothing, the last observation holds in the end. -/
theorem last_collect {α : Type*} {f : σ → ε → Option α} {P : α → σ → Prop}
    (hstep : ∀ a s e s', P a s → S.step s e = some s' → P ((f s e).getD a) s')
    {s t : σ} {es : List ε} {a : α} (hs : P a s) (hr : S.run s es = some t) :
    P ((S.collect f s es).getLastD a) t := by
  induction es generalizing s a with
  | nil =>
    obtain rfl : s = t := by simpa using hr
    exact hs
  | cons e es ih =>
    obtain ⟨s', h₁, h₂⟩ := (S.run_cons_eq_some).mp hr
    have hrest := ih (hstep a s e s' hs h₁) h₂
    rw [S.collect_cons h₁]
    cases hf : f s e with
    | none => rwa [hf] at hrest
    | some b =>
      rw [Option.toList_some, List.singleton_append, List.getLastD_cons]
      rwa [hf] at hrest

end System

/-! ## Components around a shared part -/

/-- A shared part and one component for each index. -/
structure Interleaved (ι ρ σ : Type*) where
  shared : ρ
  part : ι → σ

section Interleave

variable {ι ρ σ ε : Type*} [DecidableEq ι]

/-- One component takes a step: it changes the shared part and itself, and no
other component. -/
def interleave (step : ρ → σ → ε → Option (ρ × σ)) (w : Interleaved ι ρ σ) (e : ι × ε) :
    Option (Interleaved ι ρ σ) :=
  (step w.shared (w.part e.1) e.2).map fun r => ⟨r.1, Function.update w.part e.1 r.2⟩

variable {step : ρ → σ → ε → Option (ρ × σ)}

/-- A step of the interleaving is a step of one part together with the shared state, with
every other part as it was. -/
theorem interleave_eq_some {w w' : Interleaved ι ρ σ} {i : ι} {e : ε} :
    interleave step w (i, e) = some w' ↔
      step w.shared (w.part i) e = some (w'.shared, w'.part i) ∧
        ∀ j, j ≠ i → w'.part j = w.part j := by
  simp only [interleave, Option.map_eq_some_iff]
  constructor
  · rintro ⟨⟨r, s⟩, h, rfl⟩
    refine ⟨by simpa using h, ?_⟩
    intro j hj
    simp [Function.update_of_ne hj]
  · rintro ⟨h, hne⟩
    refine ⟨_, h, ?_⟩
    obtain ⟨r', p'⟩ := w'
    congr 1
    funext j
    by_cases hj : j = i
    · subst hj
      simp
    · rw [Function.update_of_ne hj]
      exact (hne j hj).symm

/-- A step preserves a property of the shared part together with a property of
every component, when the acting component preserves the two. -/
theorem interleave_invariant {P : ρ → Prop} {Q : σ → Prop}
    (hstep : ∀ r s e r' s', P r → Q s → step r s e = some (r', s') → P r' ∧ Q s')
    {w w' : Interleaved ι ρ σ} {e : ι × ε} (hP : P w.shared) (hQ : ∀ i, Q (w.part i))
    (h : interleave step w e = some w') : P w'.shared ∧ ∀ i, Q (w'.part i) := by
  obtain ⟨i, e⟩ := e
  obtain ⟨h₁, hne⟩ := interleave_eq_some.mp h
  obtain ⟨hP', hQ'⟩ := hstep _ _ _ _ _ hP (hQ i) h₁
  refine ⟨hP', ?_⟩
  intro j
  by_cases hj : j = i
  · rw [hj]
    exact hQ'
  · rw [hne j hj]
    exact hQ j

/-- A step preserves a property of one component when that component preserves it,
whatever the shared part is. -/
theorem interleave_part {Q : σ → Prop}
    (hstep : ∀ r s e r' s', Q s → step r s e = some (r', s') → Q s')
    {w w' : Interleaved ι ρ σ} {e : ι × ε} {i : ι} (hi : Q (w.part i))
    (h : interleave step w e = some w') : Q (w'.part i) := by
  obtain ⟨j, e⟩ := e
  obtain ⟨hj, hne⟩ := interleave_eq_some.mp h
  by_cases hij : i = j
  · subst hij
    exact hstep _ _ _ _ _ hi hj
  · rw [hne i hij]
    exact hi

end Interleave

end Transition
