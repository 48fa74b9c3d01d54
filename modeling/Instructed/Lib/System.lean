import Mathlib.Order.Defs.PartialOrder

/-!
# Transition systems

A system is a set of initial states and a partial step function whose labels carry every choice
the environment makes (which party moves, what a clock shows, which call fails). All interleavings
of the parties are then the runs of one function.

* `ReachableWhen M C`: the states reached by runs each of whose steps meets the condition `C`.
* `Reachable M`: the states reached by any run.
* `ReachableWhen.invariant`: a property of the initial states that every step keeps holds of every
  reachable state.
* `run_invariant`: the same for a run from a given state.
* `System.Along`: every step of a run meets a condition, with its own `run_invariant`.
* `System.runWhen`: a run that checks a condition on its steps.
-/

namespace Transition

universe u v

variable {σ : Type u} {ε : Type v}

/-- Initial states and a labelled partial step function. -/
structure System (σ : Type u) (ε : Type v) where
  init : σ → Prop
  step : σ → ε → Option σ

/-- The states reached by runs whose every step `s →ᵉ s'` has `C s e`. -/
inductive ReachableWhen (M : System σ ε) (C : σ → ε → Prop) : σ → Prop
  | init {s : σ} : M.init s → ReachableWhen M C s
  | step {s s' : σ} {e : ε} : ReachableWhen M C s → C s e → M.step s e = some s' →
      ReachableWhen M C s'

/-- The states reached by any run. -/
abbrev Reachable (M : System σ ε) : σ → Prop := ReachableWhen M fun _ _ => True

variable {M : System σ ε} {C : σ → ε → Prop} {s s' : σ} {es : List ε}

/-- A property that holds initially and is kept by every step of the run holds of every reachable
    state. -/
theorem ReachableWhen.invariant {P : σ → Prop} (hinit : ∀ s, M.init s → P s)
    (hstep : ∀ s e s', P s → C s e → M.step s e = some s' → P s')
    (h : ReachableWhen M C s) : P s := by
  induction h with
  | init hs => exact hinit _ hs
  | step _ hC hs ih => exact hstep _ _ _ ih hC hs

/-- As `invariant`, with the reachability of the state before the step at hand. -/
theorem ReachableWhen.invariant_of_reachable {P : σ → Prop} (hinit : ∀ s, M.init s → P s)
    (hstep : ∀ s e s', ReachableWhen M C s → P s → C s e → M.step s e = some s' → P s')
    (h : ReachableWhen M C s) : P s := by
  induction h with
  | init hs => exact hinit _ hs
  | step hr hC hs ih => exact hstep _ _ _ hr ih hC hs

/-- Fewer conditions on the steps reach more states. -/
theorem ReachableWhen.weaken {D : σ → ε → Prop} (hCD : ∀ s e, C s e → D s e)
    (h : ReachableWhen M C s) : ReachableWhen M D s := by
  induction h with
  | init hs => exact .init hs
  | step _ hC hs ih => exact .step ih (hCD _ _ hC) hs

theorem ReachableWhen.reachable (h : ReachableWhen M C s) : Reachable M s :=
  h.weaken fun _ _ _ => trivial

/-! ## Runs from a given state -/

/-- The state after the steps `es`, if each of them is enabled. -/
def System.run (M : System σ ε) : σ → List ε → Option σ
  | s, [] => some s
  | s, e :: es => (M.step s e).bind fun s' => M.run s' es

@[simp] theorem System.run_nil (M : System σ ε) (s : σ) : M.run s [] = some s := rfl

theorem System.run_cons_eq_some {e : ε} :
    M.run s (e :: es) = some s' ↔ ∃ t, M.step s e = some t ∧ M.run t es = some s' := by
  simp [System.run, Option.bind_eq_some_iff]

theorem System.run_append {es' : List ε} :
    M.run s (es ++ es') = some s' ↔ ∃ t, M.run s es = some t ∧ M.run t es' = some s' := by
  induction es generalizing s with
  | nil => simp
  | cons e es ih =>
    simp only [List.cons_append, run_cons_eq_some, ih]
    constructor
    · rintro ⟨t, ht, u, hu, hs'⟩
      exact ⟨u, ⟨t, ht, hu⟩, hs'⟩
    · rintro ⟨u, ⟨t, ht, hu⟩, hs'⟩
      exact ⟨t, ht, u, hu, hs'⟩

/-- What every step keeps, a run keeps. -/
theorem System.run_invariant {P : σ → Prop} (hstep : ∀ s e s', P s → M.step s e = some s' → P s')
    (h : M.run s es = some s') (hs : P s) : P s' := by
  induction es generalizing s with
  | nil => cases h; exact hs
  | cons e es ih =>
    obtain ⟨t, ht, h⟩ := run_cons_eq_some.mp h
    exact ih h (hstep _ _ _ hs ht)

/-- Every step of the run `es` from `s` meets the condition `C`. -/
def System.Along (M : System σ ε) (C : σ → ε → Prop) : σ → List ε → Prop
  | _, [] => True
  | s, e :: es => C s e ∧ ∀ s', M.step s e = some s' → M.Along C s' es

/-- What every step that meets the condition keeps, a run of such steps keeps. -/
theorem System.Along.run_invariant {P : σ → Prop}
    (hstep : ∀ s e s', P s → C s e → M.step s e = some s' → P s') (hC : M.Along C s es)
    (h : M.run s es = some s') (hs : P s) : P s' := by
  induction es generalizing s with
  | nil => cases h; exact hs
  | cons e es ih =>
    obtain ⟨t, ht, h⟩ := run_cons_eq_some.mp h
    exact ih (hC.2 t ht) h (hstep _ _ _ hs hC.1 ht)

/-- As `run`, checking the condition `C` before every step. -/
def System.runWhen (M : System σ ε) (C : σ → ε → Prop) [∀ s e, Decidable (C s e)] :
    σ → List ε → Option σ
  | s, [] => some s
  | s, e :: es => if C s e then (M.step s e).bind fun s' => M.runWhen C s' es else none

theorem ReachableWhen.runWhen [∀ s e, Decidable (C s e)] (hr : ReachableWhen M C s)
    (h : M.runWhen C s es = some s') : ReachableWhen M C s' := by
  induction es generalizing s with
  | nil => cases h; exact hr
  | cons e es ih =>
    by_cases hC : C s e
    · rw [System.runWhen, if_pos hC] at h
      obtain ⟨t, ht, h⟩ := Option.bind_eq_some_iff.mp h
      exact ih (.step hr hC ht) h
    · rw [System.runWhen, if_neg hC] at h
      cases h

/-- As `Reachable.run`, for a condition on the labels. -/
theorem ReachableWhen.run_of_forall (hr : ReachableWhen M C s) (hC : ∀ e ∈ es, ∀ s, C s e)
    (h : M.run s es = some s') : ReachableWhen M C s' := by
  induction es generalizing s with
  | nil => cases h; exact hr
  | cons e es ih =>
    obtain ⟨t, ht, h⟩ := System.run_cons_eq_some.mp h
    exact ih (.step hr (hC e List.mem_cons_self s) ht)
      (fun e' he' => hC e' (List.mem_cons_of_mem _ he')) h

theorem Reachable.run (hr : Reachable M s) (h : M.run s es = some s') : Reachable M s' :=
  M.run_invariant (P := Reachable M) (fun _ _ _ hs ht => .step hs trivial ht) h hr

end Transition
