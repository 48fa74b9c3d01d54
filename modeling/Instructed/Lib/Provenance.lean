import Mathlib.Data.Nat.Init
import Mathlib.Logic.ExistsUnique
import Mathlib.Logic.Relation

/-!
# Provenance

`R a b` says that `a` caused `b`. A chain of causes is a path of its reflexive transitive closure, and a
root has no cause.

* `eq_of_chain`: what every link keeps, every chain keeps;
* `follow_of_chain`: a function that finds the cause goes back along a chain;
* `existsUnique_root`: **when a cause is unique and has a lower rank, everything comes from one root.**
-/

namespace Provenance

open Relation

universe u v

variable {α : Type u} {R : α → α → Prop} {root root' a b : α}

/-- Nothing caused it. -/
def IsRoot (R : α → α → Prop) (b : α) : Prop := ∀ a, ¬ R a b

/-- `n` times to the cause. -/
def follow (cause : α → Option α) : ℕ → α → Option α
  | 0, b => some b
  | n + 1, b => (cause b).bind (follow cause n)

theorem eq_of_chain {β : Type v} {f : α → β} (h : ∀ a b, R a b → f b = f a)
    (hab : ReflTransGen R a b) : f b = f a := by
  induction hab with
  | refl => rfl
  | tail _ hlink ih => exact (h _ _ hlink).trans ih

theorem follow_of_chain {cause : α → Option α} (h : ∀ a b, R a b → cause b = some a)
    (hab : ReflTransGen R a b) : ∃ n, follow cause n b = some a := by
  induction hab with
  | refl => exact ⟨0, rfl⟩
  | tail _ hlink ih =>
    obtain ⟨n, hn⟩ := ih
    refine ⟨n + 1, ?_⟩
    rw [follow, h _ _ hlink, Option.bind_some, hn]

theorem exists_root {rank : α → ℕ} (hrank : ∀ a b, R a b → rank a < rank b) (b : α) :
    ∃ root, IsRoot R root ∧ ReflTransGen R root b := by
  induction hn : rank b using Nat.strong_induction_on generalizing b with
  | _ n ih =>
    by_cases hroot : IsRoot R b
    · exact ⟨b, hroot, .refl⟩
    · obtain ⟨a, hlink⟩ := Classical.not_forall_not.mp hroot
      obtain ⟨root, hroot, hchain⟩ := ih (rank a) (hn ▸ hrank a b hlink) a rfl
      exact ⟨root, hroot, hchain.tail hlink⟩

/-- A chain that ends in a root is empty. -/
theorem IsRoot.eq_of_chain (hb : IsRoot R b) (h : ReflTransGen R a b) : b = a := by
  rcases h.cases_tail with heq | ⟨c, -, hlink⟩
  · exact heq
  · exact absurd hlink (hb c)

theorem IsRoot.unique (hcause : ∀ a a' b, R a b → R a' b → a = a') (hroot : IsRoot R root)
    (hroot' : IsRoot R root') (h : ReflTransGen R root b) (h' : ReflTransGen R root' b) :
    root = root' := by
  induction h with
  | refl => exact hroot.eq_of_chain h'
  | @tail a c hchain hlink ih =>
    rcases h'.cases_tail with rfl | ⟨a', hchain', hlink'⟩
    · exact absurd hlink (hroot' a)
    · exact ih (hcause a a' c hlink hlink' ▸ hchain')

/-- **Everything comes from one root.** -/
theorem existsUnique_root {rank : α → ℕ} (hrank : ∀ a b, R a b → rank a < rank b)
    (hcause : ∀ a a' b, R a b → R a' b → a = a') (b : α) :
    ∃! root, IsRoot R root ∧ ReflTransGen R root b := by
  obtain ⟨root, hroot, hchain⟩ := exists_root hrank b
  exact ⟨root, ⟨hroot, hchain⟩, fun _ h => h.1.unique hcause hroot h.2 hchain⟩

end Provenance
