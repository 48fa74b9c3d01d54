import Mathlib.Data.List.Basic

/-!
# Histories whose entries are justified

A history is a list of what happened, oldest first. An entry may rest on the entries before it: an
acknowledgement on the work it acknowledges, a reply on its request.

* `Justified J h`: what comes before each entry of `h` justifies it, in the sense of `J`;
* `Justified.append_iff`, `Justified.snoc`: histories grow by entries that the history so far justifies;
* `Justified.map`: the entries seen through a function.
-/

namespace History

variable {α : Type} {J : List α → α → Prop} {h h' : List α} {a : α}

/-- What comes before each entry of the history justifies it. -/
def Justified (J : List α → α → Prop) (h : List α) : Prop :=
  ∀ before a after, h = before ++ a :: after → J before a

@[simp] theorem Justified.nil : Justified J ([] : List α) := by
  intro before a after h
  simp at h

theorem Justified.append_iff :
    Justified J (h ++ h') ↔ Justified J h ∧ Justified (fun before => J (h ++ before)) h' := by
  constructor
  · intro hj
    refine ⟨fun before a after heq => ?_, fun before a after heq => ?_⟩
    · apply hj before a (after ++ h')
      simp [heq]
    · apply hj (h ++ before) a after
      simp [heq]
  · rintro ⟨hj, hj'⟩ before a after heq
    rcases List.append_eq_append_iff.mp heq with ⟨mid, rfl, hmid⟩ | ⟨mid, hh, hmid⟩
    · exact hj' mid a after hmid
    · cases mid with
      | nil =>
        simp only [List.append_nil] at hh
        subst hh
        have hnil := hj' [] a after (by simpa using hmid.symm)
        simpa using hnil
      | cons x mid =>
        obtain ⟨rfl, -⟩ := List.cons.inj hmid
        exact hj before a mid hh

/-- The history grows by an entry that it justifies. -/
theorem Justified.snoc (hj : Justified J h) (ha : J h a) : Justified J (h ++ [a]) := by
  refine append_iff.mpr ⟨hj, fun before x after heq => ?_⟩
  cases before with
  | nil =>
    obtain ⟨rfl, -⟩ := List.cons.inj heq
    simpa using ha
  | cons y before => simp at heq

/-- The entries are seen through a function. -/
theorem Justified.map {β : Type} {J : List β → β → Prop} {f : α → β}
    (hj : Justified (fun before a => J (before.map f) (f a)) h) : Justified J (h.map f) := by
  intro before b after heq
  obtain ⟨xs, ys, rfl, rfl, hys⟩ := List.map_eq_append_iff.mp heq
  obtain ⟨a, ys, rfl, rfl, rfl⟩ := List.map_eq_cons_iff.mp hys
  exact hj xs a ys rfl

end History
