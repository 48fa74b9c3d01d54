import Mathlib.Data.List.Induction

/-!
# Writes behind a high-water mark

A row remembers the number of the last write that changed it, and is changed by higher numbers only.
Numbered writes that arrive in order may then arrive again, at any later time: the row is what each of
them makes of it once.

* `Guarded`: writes that are guarded so;
* `Guarded.replay`: the row after a list of writes;
* `replay_again`: **a write that was replayed changes nothing when it arrives again**;
* `filter_or_eq`: a selection of a sorted list, and one entry above it.
-/

namespace HighWater

/-- Writes of an `α` to a row `ρ` that may not exist. A write may fail. -/
structure Guarded (α ρ : Type) where
  number : α → ℕ
  mark : ρ → ℕ
  write : α → Option ρ → Option (Option ρ)
  /-- A write at or below the mark does nothing. -/
  stale : ∀ {a : α} {r : ρ}, number a ≤ mark r → write a (some r) = some (some r)
  /-- A write above the mark raises it. -/
  raises : ∀ {a : α} {row : Option ρ} {r : ρ}, (∀ r₀ ∈ row, mark r₀ < number a) →
    write a row = some (some r) → mark r = number a
  /-- No write deletes the row. -/
  kept : ∀ {a : α} {r : ρ}, write a (some r) ≠ some none

namespace Guarded

variable {α ρ : Type} (G : Guarded α ρ) {as : List α} {a : α} {row : Option ρ} {r : ρ}

/-- The row after the writes. -/
def replay (as : List α) : Option (Option ρ) := as.foldlM (fun row a => G.write a row) none

@[simp] theorem replay_nil : G.replay [] = some none := rfl

theorem replay_snoc : G.replay (as ++ [a]) = (G.replay as).bind (G.write a) := by
  rw [replay, List.foldlM_append]
  show (G.replay as).bind _ = _
  congr 1
  funext row
  show (G.write a row).bind some = _
  exact Option.bind_fun_some _

theorem replay_snoc_eq_some {row' : Option ρ} (h : G.replay (as ++ [a]) = some row') :
    ∃ row, G.replay as = some row ∧ G.write a row = some row' := by
  rw [replay_snoc] at h
  exact Option.bind_eq_some_iff.mp h

variable {G}

/-- The mark of the row is the number of the last write. -/
theorem mark_of_replay (has : as.Pairwise fun a b => G.number a < G.number b)
    (h : G.replay as = some (some r)) :
    (∀ a ∈ as, G.number a ≤ G.mark r) ∧ ∃ a ∈ as, G.number a = G.mark r := by
  induction as using List.reverseRecOn generalizing r with
  | nil => simp at h
  | append_singleton as b ih =>
    obtain ⟨row, hrow, hwrite⟩ := G.replay_snoc_eq_some h
    obtain ⟨has, -, hlt⟩ := List.pairwise_append.mp has
    have hlt : ∀ a ∈ as, G.number a < G.number b := fun a ha => hlt a ha b (by simp)
    have hmark : G.mark r = G.number b := by
      apply G.raises _ hwrite
      intro r₀ hr₀
      obtain ⟨-, a, ha, heq⟩ := ih has (hrow.trans (congrArg some hr₀))
      rw [← heq]
      exact hlt a ha
    refine ⟨fun a ha => ?_, b, by simp, hmark.symm⟩
    rcases List.mem_append.mp ha with ha | ha
    · have := hlt a ha
      omega
    · rw [List.mem_singleton.mp ha]
      omega

/-- As long as there is no row, no write has made one. -/
theorem write_none_of_replay (h : G.replay as = some none) : ∀ a ∈ as, G.write a none = some none := by
  induction as using List.reverseRecOn with
  | nil => simp
  | append_singleton as b ih =>
    obtain ⟨row, hrow, hwrite⟩ := G.replay_snoc_eq_some h
    cases row with
    | some r => exact absurd hwrite G.kept
    | none =>
      intro a ha
      rcases List.mem_append.mp ha with ha | ha
      · exact ih hrow a ha
      · rw [List.mem_singleton.mp ha]
        exact hwrite

/-- **A write that was replayed changes nothing when it arrives again.** -/
theorem replay_again (has : as.Pairwise fun a b => G.number a < G.number b)
    (h : G.replay as = some row) (ha : a ∈ as) : G.write a row = some row := by
  cases row with
  | none => exact write_none_of_replay h a ha
  | some r => exact G.stale ((mark_of_replay has h).1 a ha)

end Guarded

/-- A selection of a sorted list, and one entry above it. -/
theorem filter_or_eq {α : Type} {pos : α → ℕ} {xs : List α} {p : α → Bool} {x : α}
    (hxs : xs.Pairwise fun a b => pos a < pos b) (hx : x ∈ xs)
    (hp : ∀ y ∈ xs, p y = true → pos y < pos x) :
    xs.filter (fun y => p y || decide (pos y = pos x)) = xs.filter p ++ [x] := by
  obtain ⟨before, after, rfl⟩ := List.append_of_mem hx
  obtain ⟨-, hafter, hbefore⟩ := List.pairwise_append.mp hxs
  obtain ⟨habove, -⟩ := List.pairwise_cons.mp hafter
  have hleft : before.filter (fun y => p y || decide (pos y = pos x)) = before.filter p := by
    apply List.filter_congr
    intro y hy
    have hlt := hbefore y hy x (by simp)
    simp [show pos y ≠ pos x by omega]
  have hright : ∀ q : α → Bool, (∀ y ∈ after, q y = true → pos y ≤ pos x) → after.filter q = [] := by
    intro q hq
    apply List.filter_eq_nil_iff.mpr
    intro y hy hqy
    have hlt := habove y hy
    have hle := hq y hy hqy
    omega
  have hself : p x = false := by
    by_contra hpx
    have hlt := hp x (by simp) (by simpa using hpx)
    omega
  have hright₁ : after.filter p = [] := by
    apply hright
    intro y hy hpy
    exact Nat.le_of_lt (hp y (by simp [hy]) hpy)
  have hright₂ : after.filter (fun y => p y || decide (pos y = pos x)) = [] := by
    apply hright
    intro y hy hpy
    simp only [Bool.or_eq_true, decide_eq_true_eq] at hpy
    rcases hpy with hpy | heq
    · exact Nat.le_of_lt (hp y (by simp [hy]) hpy)
    · exact Nat.le_of_eq heq
  simp [hleft, hright₁, hright₂, hself]

end HighWater
