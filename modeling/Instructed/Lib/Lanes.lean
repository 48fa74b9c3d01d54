import Mathlib.Order.WithBot

/-!
# Numbered lanes below a watermark

Items sit in lanes and carry numbers. An item is added only above the watermark of its lane, which
never falls and is raised past the items added. What holds below a number at or under the watermark
then holds for ever, also in the eyes of an observer with an old view.

* `Clear`: nothing is outstanding below a number of a lane; `Clear.advance`: this is stable.
* `Ordered`: the items finished so far were finished in increasing order within each lane;
  `Ordered.snoc`: finishing the first outstanding item of a lane keeps it so.
-/

namespace Lanes

variable {L N : Type} [LinearOrder N]

/-- Nothing is outstanding below `n` in the lane `l`. -/
def Clear (out : Set (L × N)) (l : L) (n : N) : Prop := ∀ m, (l, m) ∈ out → n ≤ m

/-- The outstanding items and the watermarks changed as they may: no watermark fell, and an item
    that is new was above the watermark. -/
structure Advance (out : Set (L × N)) (watermark : L → WithBot N) (out' : Set (L × N))
    (watermark' : L → WithBot N) : Prop where
  watermark_le : ∀ l, watermark l ≤ watermark' l
  added : ∀ l n, (l, n) ∈ out' → (l, n) ∈ out ∨ watermark l < n

variable {out out' out'' : Set (L × N)} {watermark watermark' watermark'' : L → WithBot N}
  {done : List (L × N)} {l : L} {n : N}

theorem Advance.refl (out : Set (L × N)) (watermark : L → WithBot N) :
    Advance out watermark out watermark :=
  ⟨fun _ => le_rfl, fun _ _ h => Or.inl h⟩

theorem Advance.trans (h : Advance out watermark out' watermark')
    (h' : Advance out' watermark' out'' watermark'') :
    Advance out watermark out'' watermark'' := by
  refine ⟨fun l => (h.watermark_le l).trans (h'.watermark_le l), fun l n hn => ?_⟩
  rcases h'.added l n hn with hn | hn
  · exact h.added l n hn
  · exact Or.inr (lt_of_le_of_lt (h.watermark_le l) hn)

/-- What is clear up to the watermark stays clear. -/
theorem Clear.advance (hc : Clear out l n) (hn : (n : WithBot N) ≤ watermark l)
    (h : Advance out watermark out' watermark') : Clear out' l n := by
  intro m hm
  rcases h.added l m hm with hm | hm
  · exact hc m hm
  · exact le_of_lt (WithBot.coe_lt_coe.mp (lt_of_le_of_lt hn hm))

/-- Two first outstanding items of one lane are one. -/
theorem Clear.eq {m : N} (hn : (l, n) ∈ out) (hm : (l, m) ∈ out) (hcn : Clear out l n)
    (hcm : Clear out l m) : n = m :=
  le_antisymm (hcn m hm) (hcm n hn)

/-- The finished items, in the order in which they were finished: increasing within a lane, and below
    whatever is outstanding or will be added. -/
structure Ordered (done : List (L × N)) (out : Set (L × N)) (watermark : L → WithBot N) : Prop where
  increasing : done.Pairwise fun a b => a.1 = b.1 → a.2 < b.2
  below : ∀ d ∈ done, (d.2 : WithBot N) ≤ watermark d.1 ∧ ∀ m, (d.1, m) ∈ out → d.2 < m

theorem Ordered.nil : Ordered [] out watermark :=
  ⟨List.Pairwise.nil, fun _ hd => nomatch hd⟩

theorem Ordered.advance (h : Ordered done out watermark)
    (ha : Advance out watermark out' watermark') : Ordered done out' watermark' := by
  refine ⟨h.increasing, fun d hd => ?_⟩
  obtain ⟨hwm, hout⟩ := h.below d hd
  refine ⟨hwm.trans (ha.watermark_le d.1), fun m hm => ?_⟩
  rcases ha.added d.1 m hm with hm | hm
  · exact hout m hm
  · exact WithBot.coe_lt_coe.mp (lt_of_le_of_lt hwm hm)

/-- Finishing the first outstanding item of its lane. -/
theorem Ordered.snoc (h : Ordered done out watermark) (hmem : (l, n) ∈ out)
    (hclear : Clear out l n) (hn : (n : WithBot N) ≤ watermark l)
    (hout : ∀ x ∈ out', x ∈ out ∧ x ≠ (l, n)) : Ordered (done ++ [(l, n)]) out' watermark := by
  refine ⟨?_, fun d hd => ?_⟩
  · refine List.pairwise_append.mpr ⟨h.increasing, List.pairwise_singleton .., ?_⟩
    intro a ha b hb hab
    obtain rfl := List.mem_singleton.mp hb
    exact (h.below a ha).2 n (by rw [show a.1 = l from hab]; exact hmem)
  · rcases List.mem_append.mp hd with hd | hd
    · exact ⟨(h.below d hd).1, fun m hm => (h.below d hd).2 m (hout _ hm).1⟩
    · obtain rfl := List.mem_singleton.mp hd
      refine ⟨hn, fun m hm => ?_⟩
      obtain ⟨hm, hne⟩ := hout _ hm
      exact lt_of_le_of_ne (hclear m hm) fun heq => hne (heq ▸ rfl)

end Lanes
