import Mathlib.Data.List.Nodup
import Mathlib.Data.List.Range

/-!
# Lists numbered consecutively

`Consecutive pos start xs`: the elements of `xs` carry the positions `start, start + 1, …` in list
order. A log whose entries know their own position is such a list, a reader that resumes after the
last position it saw reads a suffix of it, and a page is a segment.

* `Consecutive.append_iff`: two lists one after the other.
* `Consecutive.filter_ge`: selecting the positions from some point on is `drop`.
* `Consecutive.pairwise_lt`, `eq_of_pos_eq`, `exists_of_pos`: positions are sorted, unique and
  without a gap.
* `eq_of_pairwise_lt`: lists that increase strictly are determined by their members.
-/

namespace Numbering

variable {α : Type} {pos : α → ℕ}

/-- The elements of `xs` are numbered `start, start + 1, …` by `pos`. -/
def Consecutive (pos : α → ℕ) (start : ℕ) (xs : List α) : Prop :=
  xs.map pos = List.range' start xs.length

namespace Consecutive

variable {start : ℕ} {xs ys : List α}

@[simp] theorem nil : Consecutive pos start [] := rfl

@[simp] theorem cons_iff {x : α} :
    Consecutive pos start (x :: xs) ↔ pos x = start ∧ Consecutive pos (start + 1) xs := by
  simp [Consecutive, List.range'_succ]

theorem append_iff : Consecutive pos start (xs ++ ys) ↔
    Consecutive pos start xs ∧ Consecutive pos (start + xs.length) ys := by
  induction xs generalizing start with
  | nil => simp
  | cons x xs ih =>
    have hlen : start + 1 + xs.length = start + (x :: xs).length := by
      rw [List.length_cons]
      omega
    rw [List.cons_append, cons_iff, cons_iff, ih, hlen, and_assoc]

theorem append (hx : Consecutive pos start xs) (hy : Consecutive pos (start + xs.length) ys) :
    Consecutive pos start (xs ++ ys) :=
  append_iff.mpr ⟨hx, hy⟩

theorem drop (h : Consecutive pos start xs) {n : ℕ} (hn : n ≤ xs.length) :
    Consecutive pos (start + n) (xs.drop n) := by
  rw [← List.take_append_drop n xs, append_iff, List.length_take, Nat.min_eq_left hn] at h
  exact h.2

theorem take (h : Consecutive pos start xs) (n : ℕ) : Consecutive pos start (xs.take n) := by
  rw [← List.take_append_drop n xs, append_iff] at h
  exact h.1

/-- The positions are bounded by the length. -/
theorem pos_mem (h : Consecutive pos start xs) {x : α} (hx : x ∈ xs) :
    start ≤ pos x ∧ pos x < start + xs.length := by
  have hm : pos x ∈ xs.map pos := List.mem_map_of_mem hx
  rw [h, List.mem_range'_1] at hm
  exact hm

/-- Every position up to the length is taken. -/
theorem exists_of_pos (h : Consecutive pos start xs) {k : ℕ} (hk : start ≤ k)
    (hk' : k < start + xs.length) : ∃ x ∈ xs, pos x = k := by
  have hm : k ∈ xs.map pos := by
    rw [h, List.mem_range'_1]
    exact ⟨hk, hk'⟩
  obtain ⟨x, hx, hp⟩ := List.mem_map.mp hm
  exact ⟨x, hx, hp⟩

theorem pairwise_lt (h : Consecutive pos start xs) :
    xs.Pairwise fun a b => pos a < pos b := by
  have hlt : (List.range' start xs.length).Pairwise (· < ·) := List.pairwise_lt_range' 1
  rwa [← h, List.pairwise_map] at hlt

theorem nodup_pos (h : Consecutive pos start xs) : (xs.map pos).Nodup := by
  rw [h]
  exact List.nodup_range'

/-- The position of the last element. -/
theorem getLast?_pos (h : Consecutive pos (start + 1) xs) (hne : xs ≠ []) :
    xs.getLast?.map pos = some (start + xs.length) := by
  have hlen := List.length_pos_iff.mpr hne
  rw [← List.getLast?_map, h, List.getLast?_range', if_neg (by omega)]
  exact congrArg some (by omega)

theorem eq_of_pos_eq (h : Consecutive pos start xs) {x y : α} (hx : x ∈ xs) (hy : y ∈ xs)
    (hp : pos x = pos y) : x = y :=
  List.inj_on_of_nodup_map h.nodup_pos hx hy hp

/-- Selecting the positions from `k` on keeps a suffix. -/
theorem filter_ge (h : Consecutive pos start xs) (k : ℕ) :
    (xs.filter fun x => decide (k ≤ pos x)) = xs.drop (k - start) := by
  induction xs generalizing start with
  | nil => simp
  | cons x xs ih =>
    obtain ⟨hx, h⟩ := cons_iff.mp h
    by_cases hle : k ≤ start
    · have h1 : k - start = 0 := by omega
      have h2 : k - (start + 1) = 0 := by omega
      rw [List.filter_cons_of_pos (by simpa [hx] using hle), ih h, h1, h2]
      simp
    · have h1 : k - start = k - (start + 1) + 1 := by omega
      rw [List.filter_cons_of_neg (by simpa [hx] using hle), ih h, h1, List.drop_succ_cons]

/-- Selecting the positions up to `k` keeps a prefix. -/
theorem filter_le (h : Consecutive pos start xs) (k : ℕ) :
    (xs.filter fun x => decide (pos x ≤ k)) = xs.take (k + 1 - start) := by
  induction xs generalizing start with
  | nil => simp
  | cons x xs ih =>
    obtain ⟨hx, h⟩ := cons_iff.mp h
    by_cases hle : start ≤ k
    · have h1 : k + 1 - start = k + 1 - (start + 1) + 1 := by omega
      rw [List.filter_cons_of_pos (by simpa [hx] using hle), ih h, h1, List.take_succ_cons]
    · have h1 : k + 1 - start = 0 := by omega
      have h2 : k + 1 - (start + 1) = 0 := by omega
      rw [List.filter_cons_of_neg (by simpa [hx] using hle), ih h, h1, h2]
      simp

/-- Numbers that increase along the list from `start` on are at least the positions. -/
theorem le_of_pairwise {f : α → ℕ} (hg : Consecutive pos start xs)
    (hf : xs.Pairwise fun a b => f a < f b) (hk : ∀ x ∈ xs, start ≤ f x) :
    ∀ x ∈ xs, pos x ≤ f x := by
  induction xs generalizing start with
  | nil => exact fun _ hx => nomatch hx
  | cons a xs ih =>
    obtain ⟨ha, hg⟩ := Consecutive.cons_iff.mp hg
    obtain ⟨hlt, hf⟩ := List.pairwise_cons.mp hf
    have hka := hk a List.mem_cons_self
    intro x hx
    rcases List.mem_cons.mp hx with rfl | hx
    · omega
    · refine ih hg hf (fun y hy => ?_) x hx
      have hay := hlt y hy
      omega

/-- The positions of a numbered list determine its length. -/
theorem length_eq_of_map_eq {n : ℕ} (h : xs.map pos = List.range' start n) : xs.length = n := by
  have hlen := congrArg List.length h
  rwa [List.length_map, List.length_range'] at hlen

theorem of_map_eq {n : ℕ} (h : xs.map pos = List.range' start n) : Consecutive pos start xs := by
  rw [Consecutive, length_eq_of_map_eq h, h]

end Consecutive

/-- Lists that increase strictly are determined by their members. -/
theorem eq_of_pairwise_lt {β : Type} [Preorder β] {f : α → β} {xs ys : List α}
    (hx : xs.Pairwise fun a b => f a < f b) (hy : ys.Pairwise fun a b => f a < f b)
    (h : ∀ a, a ∈ xs ↔ a ∈ ys) : xs = ys := by
  have hnodup : ∀ {zs : List α}, (zs.Pairwise fun a b => f a < f b) → zs.Nodup := fun hz =>
    hz.imp fun hlt heq => absurd (congrArg f heq) hlt.ne
  have hperm := (List.perm_ext_iff_of_nodup (hnodup hx) (hnodup hy)).mpr h
  exact hperm.eq_of_pairwise (fun a b _ _ hab hba => absurd hab (lt_asymm hba)) hx hy

end Numbering
