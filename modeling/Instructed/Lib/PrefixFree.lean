import Mathlib.Data.List.Basic
import Mathlib.Data.List.Infix

/-!
# Tagged words

A word behind one of several tags. The tag and the word can be told apart for all words exactly when no
tag is a prefix of another one.

* `PrefixFree`: the tags;
* `injective_tag_iff`: the joined words are distinct for distinct pairs iff the tags are prefix-free.
-/

namespace TaggedWords

variable {ι α : Type}

/-- No tag is a prefix of another one. -/
def PrefixFree (tag : ι → List α) : Prop := ∀ i j, i ≠ j → ¬ tag i <+: tag j

theorem PrefixFree.eq_of_append_eq {tag : ι → List α} (h : PrefixFree tag) {i j : ι}
    {x y : List α} (heq : tag i ++ x = tag j ++ y) : i = j ∧ x = y := by
  have hi : tag i <+: tag i ++ x := List.prefix_append ..
  have hj : tag j <+: tag i ++ x := heq ▸ List.prefix_append ..
  have hij : i = j := by
    by_contra hne
    rcases List.prefix_or_prefix_of_prefix hi hj with hpre | hpre
    · exact h i j hne hpre
    · exact h j i (Ne.symm hne) hpre
  subst hij
  exact ⟨rfl, List.append_cancel_left heq⟩

theorem injective_tag_iff {tag : ι → List α} :
    Function.Injective (fun s : ι × List α => tag s.1 ++ s.2) ↔ PrefixFree tag := by
  constructor
  · rintro hinj i j hne ⟨rest, hrest⟩
    have heq : tag i ++ rest = tag j ++ [] := by rw [hrest, List.append_nil]
    have hpair := @hinj (i, rest) (j, []) heq
    exact hne (congrArg Prod.fst hpair)
  · rintro h ⟨i, x⟩ ⟨j, y⟩ heq
    obtain ⟨rfl, rfl⟩ := h.eq_of_append_eq heq
    rfl

end TaggedWords
