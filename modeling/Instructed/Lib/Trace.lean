import Mathlib.Data.List.Basic

/-!
# Traces of a labelled relation

A protocol says which actions are allowed at a stage, and which stage they lead to. A trace keeps to the
protocol when it labels a path.

* `Path R s t s'`: the actions `t` lead from `s` to `s'`;
* `Path.append_iff`, `Path.singleton_iff`: a path through a trace that is put together.
-/

namespace Trace

universe u v

variable {σ : Type u} {ε : Type v} {R : σ → ε → σ → Prop} {s s' : σ} {e : ε} {t t' : List ε}

/-- The labels `t` lead from `s` to `s'`, one after the other. -/
inductive Path (R : σ → ε → σ → Prop) (s : σ) : List ε → σ → Prop
  | nil : Path R s [] s
  | snoc {m s' : σ} {t : List ε} {e : ε} : Path R s t m → R m e s' → Path R s (t ++ [e]) s'

theorem Path.append {m : σ} (h : Path R s t m) (h' : Path R m t' s') : Path R s (t ++ t') s' := by
  induction h' with
  | nil => rwa [List.append_nil]
  | snoc _ hstep ih =>
    rw [← List.append_assoc]
    exact ih.snoc hstep

/-- A path through two traces passes a stage between them. -/
theorem Path.append_iff : Path R s (t ++ t') s' ↔ ∃ m, Path R s t m ∧ Path R m t' s' := by
  refine ⟨fun h => ?_, fun ⟨m, h, h'⟩ => h.append h'⟩
  generalize hw : t ++ t' = w at h
  induction h generalizing t' with
  | nil =>
    obtain ⟨rfl, rfl⟩ := List.append_eq_nil_iff.mp hw
    exact ⟨s, .nil, .nil⟩
  | @snoc m s' w e hpath hstep ih =>
    rcases List.eq_nil_or_concat t' with rfl | ⟨u, x, rfl⟩
    · rw [List.append_nil] at hw
      exact ⟨s', hw ▸ hpath.snoc hstep, .nil⟩
    · rw [List.concat_eq_append, ← List.append_assoc] at hw
      obtain ⟨rfl, hx⟩ := List.append_inj' hw rfl
      obtain rfl := List.singleton_inj.mp hx
      obtain ⟨m', hleft, hright⟩ := ih rfl
      rw [List.concat_eq_append]
      exact ⟨m', hleft, hright.snoc hstep⟩

theorem Path.singleton_iff : Path R s [e] s' ↔ R s e s' := by
  constructor
  · intro h
    generalize hw : [e] = w at h
    cases h with
    | nil => cases hw
    | @snoc m _ w x hpath hstep =>
      have hw : [] ++ [e] = w ++ [x] := hw
      obtain ⟨rfl, hx⟩ := List.append_inj' hw rfl
      obtain rfl := List.singleton_inj.mp hx
      generalize hnil : [] = w at hpath
      cases hpath with
      | nil => exact hstep
      | snoc _ _ => simp at hnil
  · exact fun h => Path.snoc .nil h

/-- The first action of a path, and the rest. -/
theorem Path.cons_iff : Path R s (e :: t) s' ↔ ∃ m, R s e m ∧ Path R m t s' := by
  rw [← List.singleton_append, append_iff]
  simp only [singleton_iff]

end Trace
