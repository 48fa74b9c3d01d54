import Instructed.Sql.Values

/-!
# Values and their text

A `uuid` and a counter that a row carries reach the client as text, and the client's text comes back in
the next call.

* `uuidOfText_text`: `u::text::uuid` is `u`;
* `Canonical`: a text that a `uuid` has; `castUuid_canonical`: the cast gives back the text;
* `decimal?_toString`: the decimal text of a counter.
-/

namespace Instructed.Sql

/-! ## `uuid` -/

section Uuid

variable (h l d : Fin 16) (cs : List Char) (left : ℕ)

theorem hexDigit?_hexChar : hexDigit? (hexChar d) = some d := by
  decide +revert

theorem hexChar_ne_dash : hexChar d ≠ '-' := by
  decide +revert

theorem hexChar_ne_brace : hexChar d ≠ '\x7b' := by
  decide +revert

/-- A byte inside a group. -/
theorem uuidBytes_cons : uuidBytes (left + 1) (hexChar h :: hexChar l :: hexChar d :: cs) =
    (uuidBytes left (hexChar d :: cs)).map fun r => (h :: l :: r.1, r.2) := by
  rw [uuidBytes, hexDigit?_hexChar, hexDigit?_hexChar]
  · show (uuidBytes left (hexChar d :: cs)).bind _ = _
    cases uuidBytes left (hexChar d :: cs) <;> rfl
  · intro cs' heq
    exact hexChar_ne_dash d (List.cons.inj heq).1

/-- A byte at the end of a group. -/
theorem uuidBytes_dash (heven : left % 2 = 0 ∧ 0 < left) :
    uuidBytes (left + 1) (hexChar h :: hexChar l :: '-' :: cs) =
      (uuidBytes left cs).map fun r => (h :: l :: r.1, r.2) := by
  rw [uuidBytes, hexDigit?_hexChar, hexDigit?_hexChar]
  dsimp only
  rw [if_pos heven]
  cases uuidBytes left cs <;> rfl

theorem uuidBytes_one : uuidBytes 1 [hexChar h, hexChar l] = some ([h, l], []) := by
  rw [uuidBytes, hexDigit?_hexChar, hexDigit?_hexChar]
  · rfl
  · intro cs' heq
    cases heq

theorem uuidOfText_of_bytes {s : String} {ds : List (Fin 16)} (hlen : ds.length = 32)
    (hhead : ∀ cs, s.toList ≠ '\x7b' :: cs) (h : uuidBytes 16 s.toList = some (ds, [])) :
    uuidOfText s = some ⟨ds, hlen⟩ := by
  unfold uuidOfText
  split
  rename_i braces cs heq
  split at heq
  · rename_i hbrace
    exact absurd hbrace (hhead _)
  · obtain ⟨rfl, rfl⟩ := Prod.mk.inj heq
    rw [h]
    simp [hlen]

/-- **The text of a `uuid` is read back.** -/
theorem uuidOfText_text (u : Uuid) : uuidOfText u.text = some u := by
  obtain ⟨ds, hlen⟩ := u
  match ds, hlen with
  | [a0, a1, a2, a3, a4, a5, a6, a7, b0, b1, b2, b3, c0, c1, c2, c3, d0, d1, d2, d3, e0, e1, e2, e3, e4,
      e5, e6, e7, e8, e9, e10, e11], hlen =>
    have hbytes : uuidBytes 16 (Uuid.text ⟨_, hlen⟩).toList =
        some ([a0, a1, a2, a3, a4, a5, a6, a7, b0, b1, b2, b3, c0, c1, c2, c3, d0, d1, d2, d3, e0, e1,
          e2, e3, e4, e5, e6, e7, e8, e9, e10, e11], []) := by
      simp [Uuid.text, uuidBytes_cons, uuidBytes_dash, uuidBytes_one]
    refine uuidOfText_of_bytes hlen (fun cs => ?_) hbytes
    simp [Uuid.text, hexChar_ne_brace]

end Uuid

/-- The text that a `uuid` has: lower case, with four dashes. -/
def Canonical (s : String) : Prop := ∃ u : Uuid, s = u.text

/-- A nullable text that is `NULL` or canonical passes `nullif` and the cast, and is what the `uuid` reads
    back as. -/
theorem castUuid_canonical {o : Option String} (h : ∀ s ∈ o, Canonical s) :
    ∃ c, castUuid (nullifEmpty o) = .ok c ∧ castUuid o = .ok c ∧ c.map Uuid.text = o := by
  cases o with
  | none => exact ⟨none, rfl, rfl, rfl⟩
  | some s =>
    obtain ⟨u, rfl⟩ := h s rfl
    have hne : u.text ≠ "" := by
      intro hnil
      have hread := uuidOfText_text u
      rw [hnil] at hread
      cases hread
    have hcast : castUuid (some u.text) = .ok (some u) := by
      simp only [castUuid, uuidOfText_text]
    refine ⟨some u, ?_, hcast, rfl⟩
    rw [nullifEmpty, Option.bind_some, if_neg hne, hcast]

/-! ## Counters -/

theorem decimal?_toString (n : ℕ) : decimal? (toString n).toList = some n := by
  have hdigit : ∀ c ∈ Nat.toDigits 10 n, '0' ≤ c ∧ c ≤ '9' := by
    intro c hc
    have hd := Nat.isDigit_of_mem_toDigits (by omega) (by omega) hc
    simpa [Char.le_def, UInt32.le_iff_toNat_le] using Char.isDigit_iff_toNat.mp hd
  have hlist : (toString n).toList = Nat.toDigits 10 n := Nat.toList_repr
  rw [hlist, decimal?, if_pos ⟨Nat.toDigits_ne_nil, by simpa using hdigit⟩]
  exact congrArg some Nat.ofDigitChars_ten_toDigits

end Instructed.Sql
