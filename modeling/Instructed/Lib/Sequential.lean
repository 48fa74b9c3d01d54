import Mathlib.Data.List.Basic

/-!
# Sequential objects and their legal histories

A sequential object answers one operation at a time. A history, a list of operations with the
answers they were given, is legal when running the operations in that order gives those answers. A
concurrent implementation linearizes when the history of its finished operations is legal.

Answers are compared by a relation, for an implementation that may answer differently in a way its
clients do not distinguish.

* `Legal.append`, `Legal.snoc`, `Legal.split`, `Legal.getElem?`: histories compose and decompose.
* `Legal.simulate`: an object that simulates another has the same legal histories.
-/

namespace Sequential

variable {σ τ ο ρ : Type}

/-- A deterministic object: the answer to an operation and the state after it. -/
structure Object (σ ο ρ : Type) where
  answer : σ → ο → ρ
  next : σ → ο → σ

/-- The history `h` leads from `s` to `s'`, each answer related to the object's by `R`. -/
inductive Legal (O : Object σ ο ρ) (R : ο → ρ → ρ → Prop) : σ → List (ο × ρ) → σ → Prop
  | nil {s : σ} : Legal O R s [] s
  | cons {s s' : σ} {op : ο} {r : ρ} {h : List (ο × ρ)} : R op r (O.answer s op) →
      Legal O R (O.next s op) h s' → Legal O R s ((op, r) :: h) s'

variable {O : Object σ ο ρ} {P : Object τ ο ρ} {R : ο → ρ → ρ → Prop} {s s' s'' : σ}
  {h h' : List (ο × ρ)}

theorem Legal.append (hl : Legal O R s h s') (hl' : Legal O R s' h' s'') :
    Legal O R s (h ++ h') s'' := by
  induction hl with
  | nil => exact hl'
  | cons hr _ ih => exact .cons hr (ih hl')

theorem Legal.snoc {op : ο} {r : ρ} (hl : Legal O R s h s') (hr : R op r (O.answer s' op)) :
    Legal O R s (h ++ [(op, r)]) (O.next s' op) :=
  hl.append (.cons hr .nil)

/-- A history splits at any point. -/
theorem Legal.split (hl : Legal O R s (h ++ h') s'') :
    ∃ t, Legal O R s h t ∧ Legal O R t h' s'' := by
  induction h generalizing s with
  | nil => exact ⟨s, .nil, hl⟩
  | cons x h ih =>
    cases hl with
    | cons hr hl =>
      obtain ⟨t, ht, ht'⟩ := ih hl
      exact ⟨t, .cons hr ht, ht'⟩

/-- The `i`-th operation of a legal history, at the state in which it was answered. -/
theorem Legal.getElem? {i : ℕ} {op : ο} {r : ρ} (hl : Legal O R s h s')
    (hi : h[i]? = some (op, r)) :
    ∃ t, Legal O R s (h.take i) t ∧ R op r (O.answer t op) ∧
      Legal O R (O.next t op) (h.drop (i + 1)) s' := by
  obtain ⟨hlt, hget⟩ := List.getElem?_eq_some_iff.mp hi
  rw [← List.take_append_drop i h, List.drop_eq_getElem_cons hlt, hget] at hl
  obtain ⟨t, ht, ht'⟩ := hl.split
  cases ht' with
  | cons hr hl => exact ⟨t, ht, hr, hl⟩

/-- What an operation keeps, a legal history keeps. -/
theorem Legal.invariant {Q : σ → Prop} (hnext : ∀ s op, Q s → Q (O.next s op))
    (hl : Legal O R s h s') (hs : Q s) : Q s' := by
  induction hl with
  | nil => exact hs
  | cons _ _ ih => exact ih (hnext _ _ hs)

/-- **Simulation.** If related states answer alike and stay related, a history that is legal for
    `O` is legal for `P`. -/
theorem Legal.simulate {S : σ → τ → Prop} {t : τ}
    (hans : ∀ s t op, S s t → O.answer s op = P.answer t op)
    (hnext : ∀ s t op, S s t → S (O.next s op) (P.next t op))
    (hl : Legal O R s h s') (hst : S s t) : ∃ t', Legal P R t h t' ∧ S s' t' := by
  induction hl generalizing t with
  | nil => exact ⟨t, .nil, hst⟩
  | cons hr _ ih =>
    obtain ⟨t', hl', hst'⟩ := ih (hnext _ _ _ hst)
    exact ⟨t', .cons (hans _ _ _ hst ▸ hr) hl', hst'⟩

end Sequential
