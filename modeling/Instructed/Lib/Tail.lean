import Instructed.Lib.Consecutive
import Mathlib.Algebra.GroupWithZero.Nat
import Mathlib.Data.List.Infix

/-!
# Reading a list that grows at its end

A reader takes the elements of a growing list one batch after the other. What it has taken so far is
the segment behind the position it started from.

* `Taken`: the segment; `Taken.grow`: it stays one when the list grows.
* `Taken.append`: the next batch continues it.
* `Taken.mem_iff`, `Taken.getLast?_pos`: which positions were taken, when the list is numbered.
* `readPages`: a reader that asks for one page after the other, each behind the last position of the
  page before it; `readPages_eq`: what it reads is one segment, however it is cut.
-/

namespace Numbering

variable {α : Type}

/-- `taken` is what stands in `source` behind the first `start` elements, up to some point. -/
def Taken (source : List α) (start : ℕ) (taken : List α) : Prop := taken <+: source.drop start

namespace Taken

variable {source source' taken next : List α} {start : ℕ}

theorem nil : Taken source start [] := List.nil_prefix

/-- A page is a segment. -/
theorem page (source : List α) (start qty : ℕ) : Taken source start ((source.drop start).take qty) :=
  List.take_prefix ..

theorem grow (h : Taken source start taken) (hgrow : source <+: source') :
    Taken source' start taken :=
  h.trans (hgrow.drop start)

theorem left (h : Taken source start (taken ++ next)) : Taken source start taken :=
  (List.prefix_append ..).trans h

theorem sublist (h : Taken source start taken) : taken.Sublist source :=
  (List.IsPrefix.sublist h).trans (List.drop_sublist ..)

theorem append (h : Taken source start taken) (hnext : Taken source (start + taken.length) next) :
    Taken source start (taken ++ next) := by
  obtain ⟨rest, hrest⟩ := h
  obtain ⟨more, hmore⟩ := hnext
  have hdrop : source.drop (start + taken.length) = rest := by
    rw [← List.drop_drop, ← hrest, List.drop_left]
  refine ⟨more, ?_⟩
  rw [List.append_assoc, hmore, hdrop, hrest]

/-- What is not empty lies within the list. -/
theorem length_le (h : Taken source start taken) (hne : taken ≠ []) :
    start + taken.length ≤ source.length := by
  have hle := List.IsPrefix.length_le h
  have hpos := List.length_pos_iff.mpr hne
  rw [List.length_drop] at hle
  omega

section Position

variable {pos : α → ℕ}

theorem consecutive (h : Taken source start taken) (hpos : Consecutive pos 1 source) :
    Consecutive pos (start + 1) taken := by
  rcases eq_or_ne taken [] with rfl | hne
  · exact .nil
  · have hle := h.length_le hne
    have hdrop := hpos.drop (n := start) (by omega)
    obtain ⟨rest, hrest⟩ := h
    rw [← hrest, Nat.add_comm] at hdrop
    exact (Consecutive.append_iff.mp hdrop).1

/-- The elements at the positions behind `start`, as many as were taken. -/
theorem mem_iff (h : Taken source start taken) (hpos : Consecutive pos 1 source) {x : α} :
    x ∈ taken ↔ x ∈ source ∧ start < pos x ∧ pos x ≤ start + taken.length := by
  have htaken := h.consecutive hpos
  constructor
  · intro hx
    have hm := htaken.pos_mem hx
    exact ⟨List.mem_of_mem_drop (List.IsPrefix.subset h hx), by omega, by omega⟩
  · rintro ⟨hx, hlt, hle⟩
    obtain ⟨y, hy, hxy⟩ := htaken.exists_of_pos (k := pos x) (by omega) (by omega)
    have hmem := List.mem_of_mem_drop (List.IsPrefix.subset h hy)
    exact hpos.eq_of_pos_eq hmem hx hxy ▸ hy

/-- The position of the element taken last. -/
theorem getLast?_pos (h : Taken source start taken) (hpos : Consecutive pos 1 source)
    (hne : taken ≠ []) : taken.getLast?.map pos = some (start + taken.length) :=
  (h.consecutive hpos).getLast?_pos hne

theorem nodup (h : Taken source start taken) (hpos : Consecutive pos 1 source) : taken.Nodup :=
  (h.consecutive hpos).nodup_pos.of_map

end Position

end Taken

/-! ## Pages -/

section Pages

variable {ε : Type} {pos : α → ℕ} {read : ℕ → ℕ → Except ε (List α)}

/-- Read pages of the given sizes, from the position `start` on. -/
def readPages (pos : α → ℕ) (read : ℕ → ℕ → Except ε (List α)) :
    ℕ → List ℕ → Except ε (List α)
  | _, [] => .ok []
  | start, size :: sizes => do
    let page ← read start size
    let next := (page.getLast?.map pos).elim start (· + 1)
    let rest ← readPages pos read next sizes
    return page ++ rest

/-- Two segments, the second behind the elements of the first. -/
theorem take_append_take (xs : List α) (m n : ℕ) :
    xs.take m ++ (xs.drop (xs.take m).length).take n = xs.take (m + n) := by
  rw [List.take_add, List.length_take]
  rcases Nat.le_total m xs.length with hle | hle
  · rw [Nat.min_eq_left hle]
  · rw [Nat.min_eq_right hle, List.drop_length, List.drop_eq_nil_of_le hle]

/-- A page that covers a segment of the source. -/
theorem page_eq {old mid more : List α} {start size : ℕ} (hpos : Consecutive pos 1 (old ++ mid ++ more))
    (hne : mid ≠ []) (hcover : ∀ x ∈ mid, start ≤ pos x ∧ pos x < start + size) :
    ∃ n, ((old ++ mid ++ more).drop (start - 1)).take size =
      old.drop (start - 1) ++ mid ++ more.take n := by
  have hmid : Consecutive pos (old.length + 1) mid := by
    rw [Nat.add_comm]
    exact (Consecutive.append_iff.mp (Consecutive.append_iff.mp hpos).1).2
  obtain ⟨first, hfirst, hfirstPos⟩ := hmid.exists_of_pos le_rfl
    (by have hlen := List.length_pos_iff.mpr hne; omega)
  obtain ⟨last, hlast, hlastPos⟩ := hmid.exists_of_pos (k := old.length + mid.length)
    (by have hlen := List.length_pos_iff.mpr hne; omega) (by omega)
  have hstart := (hcover first hfirst).1
  have hend := (hcover last hlast).2
  rw [hfirstPos] at hstart
  rw [hlastPos] at hend
  refine ⟨size - (old.length - (start - 1) + mid.length), ?_⟩
  rw [List.append_assoc, List.drop_append_of_le_length (by omega), List.take_append,
    List.take_append, List.length_drop, List.take_of_length_le (by rw [List.length_drop]; omega),
    List.take_of_length_le (by omega), List.append_assoc]
  congr 3
  omega

/-- **Pages of any sizes read one segment.** -/
theorem readPages_eq {source : List α} (hpos : Consecutive pos 1 source)
    (hread : ∀ start size, 0 < size → read start size = .ok ((source.drop (start - 1)).take size))
    {sizes : List ℕ} (hsizes : ∀ size ∈ sizes, 0 < size) (start : ℕ) :
    readPages pos read start sizes = .ok ((source.drop (start - 1)).take sizes.sum) := by
  induction sizes generalizing start with
  | nil => simp [readPages]
  | cons size sizes ih =>
    have hsize := hsizes size List.mem_cons_self
    have ih := ih fun n hn => hsizes n (List.mem_cons_of_mem _ hn)
    rw [readPages, hread start size hsize, List.sum_cons]
    show (readPages pos read _ sizes >>= fun rest => pure (_ ++ rest)) = _
    rcases eq_or_ne ((source.drop (start - 1)).take size) [] with hnil | hne
    · have hend : source.drop (start - 1) = [] := by
        rcases List.take_eq_nil_iff.mp hnil with hzero | hend
        · omega
        · exact hend
      rw [hnil, List.getLast?_nil, Option.map_none, Option.elim_none, ih, hend, List.take_nil,
        List.take_nil]
      rfl
    · have hlast := (Taken.page source (start - 1) size).getLast?_pos hpos hne
      rw [hlast, Option.elim_some, ih, Nat.add_sub_cancel, ← List.drop_drop]
      exact congrArg Except.ok (take_append_take ..)

end Pages

end Numbering
