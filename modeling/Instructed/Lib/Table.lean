import Mathlib.Data.List.Nodup
import Mathlib.Data.List.Basic

/-!
# Keyed tables

A database table with a primary key: a list of rows together with the proof that no two rows
carry the same key. `Table key` is indexed by the key function, so a table with a duplicate key
cannot be built and no later proof has to re-establish uniqueness.

* `Table.find?`: lookup by key, with `find?_eq_some_iff` and `find?_eq_none_iff`.
* `Table.put`: `INSERT ... ON CONFLICT (key) DO UPDATE` of a whole row (`find?_put`, `mem_put`).
* `Table.insertNew`: `INSERT ... ON CONFLICT DO NOTHING`.
* `Table.deleteWhere`: `DELETE ... WHERE p`.
* `Table.putAll`, `Table.insertAllNew`: a list of writes, in order.
-/

namespace Relational

variable {ρ κ : Type}

/-- A table with primary key `key`: the rows in insertion order, no key twice. -/
@[ext]
structure Table (key : ρ → κ) where
  rows : List ρ
  nodup : (rows.map key).Nodup

namespace Table

variable {key : ρ → κ}

instance [DecidableEq ρ] : DecidableEq (Table key) := fun s t =>
  decidable_of_iff (s.rows = t.rows) ⟨fun h => Table.ext h, fun h => h ▸ rfl⟩

/-- The table without rows. -/
def empty (key : ρ → κ) : Table key := ⟨[], List.nodup_nil⟩

@[simp] theorem rows_empty : (empty key).rows = [] := rfl

/-- Two rows with the same key are the same row. -/
theorem eq_of_key_eq (t : Table key) {x y : ρ} (hx : x ∈ t.rows) (hy : y ∈ t.rows)
    (h : key x = key y) : x = y :=
  List.inj_on_of_nodup_map t.nodup hx hy h

/-! ## `deleteWhere` -/

/-- Delete the rows that satisfy `p`. -/
def deleteWhere (t : Table key) (p : ρ → Bool) : Table key :=
  ⟨t.rows.filter fun r => !p r, (List.filter_sublist.map key).nodup t.nodup⟩

theorem mem_deleteWhere {t : Table key} {p : ρ → Bool} {x : ρ} :
    x ∈ (t.deleteWhere p).rows ↔ x ∈ t.rows ∧ p x = false := by
  simp [deleteWhere]

/-- Deleting nothing changes nothing. -/
theorem deleteWhere_eq_self {t : Table key} {p : ρ → Bool} (h : ∀ r ∈ t.rows, p r = false) :
    t.deleteWhere p = t := by
  apply Table.ext
  exact List.filter_eq_self.mpr fun r hr => by simp [h r hr]

variable [DecidableEq κ]

/-! ## Lookup -/

/-- The row with key `k`. -/
def find? (t : Table key) (k : κ) : Option ρ := t.rows.find? fun r => decide (key r = k)

@[simp] theorem find?_empty (k : κ) : (empty key).find? k = none := rfl

theorem find?_eq_some_iff {t : Table key} {k : κ} {r : ρ} :
    t.find? k = some r ↔ r ∈ t.rows ∧ key r = k := by
  constructor
  · intro h
    exact ⟨List.mem_of_find?_eq_some h, by simpa using List.find?_some h⟩
  · rintro ⟨hr, hk⟩
    have hsome : (t.find? k).isSome := by
      rw [find?, List.find?_isSome]
      exact ⟨r, hr, by simpa using hk⟩
    obtain ⟨x, hx⟩ := Option.isSome_iff_exists.mp hsome
    have hxr : x = r := t.eq_of_key_eq (List.mem_of_find?_eq_some hx) hr (by
      rw [hk]
      simpa using List.find?_some hx)
    rw [hx, hxr]

theorem find?_eq_none_iff {t : Table key} {k : κ} :
    t.find? k = none ↔ ∀ r ∈ t.rows, key r ≠ k := by
  simp [find?, List.find?_eq_none]

theorem mem_of_find? {t : Table key} {k : κ} {r : ρ} (h : t.find? k = some r) : r ∈ t.rows :=
  (find?_eq_some_iff.mp h).1

theorem key_of_find? {t : Table key} {k : κ} {r : ρ} (h : t.find? k = some r) : key r = k :=
  (find?_eq_some_iff.mp h).2

theorem find?_key {t : Table key} {r : ρ} (h : r ∈ t.rows) : t.find? (key r) = some r :=
  find?_eq_some_iff.mpr ⟨h, rfl⟩

theorem find?_of_mem {t : Table key} {r : ρ} {k : κ} (h : r ∈ t.rows) (hk : key r = k) :
    t.find? k = some r :=
  find?_eq_some_iff.mpr ⟨h, hk⟩

/-! ## `put` -/

theorem map_key_replace (rows : List ρ) (r : ρ) :
    (rows.map fun x => if key x = key r then r else x).map key = rows.map key := by
  rw [List.map_map]
  refine List.map_congr_left fun x _ => ?_
  by_cases h : key x = key r <;> simp [h]

/-- Write the row `r`: replace the row with its key in place, or append it. -/
def put (t : Table key) (r : ρ) : Table key :=
  if h : key r ∈ t.rows.map key then
    ⟨t.rows.map fun x => if key x = key r then r else x, by rw [map_key_replace]; exact t.nodup⟩
  else
    ⟨t.rows ++ [r], by
      rw [List.map_append, List.nodup_append]
      refine ⟨t.nodup, by simp, ?_⟩
      intro a ha b hb hab
      simp only [List.map_cons, List.map_nil, List.mem_singleton] at hb
      exact h (hb ▸ hab ▸ ha)⟩

theorem put_rows_of_find? {t : Table key} {r x : ρ} (h : t.find? (key r) = some x) :
    (t.put r).rows = t.rows.map fun y => if key y = key r then r else y := by
  have hm : key r ∈ t.rows.map key :=
    List.mem_map.mpr ⟨x, mem_of_find? h, key_of_find? h⟩
  simp [put, hm]

theorem put_rows_of_new {t : Table key} {r : ρ} (h : t.find? (key r) = none) :
    (t.put r).rows = t.rows ++ [r] := by
  have hm : key r ∉ t.rows.map key := by
    rintro hmem
    obtain ⟨x, hx, hk⟩ := List.mem_map.mp hmem
    exact find?_eq_none_iff.mp h x hx hk
  simp [put, hm]

theorem mem_put {t : Table key} {r x : ρ} :
    x ∈ (t.put r).rows ↔ x = r ∨ (x ∈ t.rows ∧ key x ≠ key r) := by
  cases h : t.find? (key r) with
  | some y =>
    rw [put_rows_of_find? h, List.mem_map]
    constructor
    · rintro ⟨z, hz, rfl⟩
      by_cases hk : key z = key r
      · simp [hk]
      · simp [hk, hz]
    · rintro (rfl | ⟨hx, hk⟩)
      · exact ⟨y, mem_of_find? h, by simp [key_of_find? h]⟩
      · exact ⟨x, hx, by simp [hk]⟩
  | none =>
    rw [put_rows_of_new h, List.mem_append, List.mem_singleton]
    have hne := find?_eq_none_iff.mp h
    constructor
    · rintro (hx | rfl)
      · exact Or.inr ⟨hx, hne x hx⟩
      · exact Or.inl rfl
    · rintro (rfl | ⟨hx, -⟩)
      · exact Or.inr rfl
      · exact Or.inl hx

@[simp] theorem find?_put (t : Table key) (r : ρ) (k : κ) :
    (t.put r).find? k = if key r = k then some r else t.find? k := by
  split_ifs with hk
  · exact find?_of_mem (mem_put.mpr (Or.inl rfl)) hk
  · cases h : t.find? k with
    | some x =>
      have hx := find?_eq_some_iff.mp h
      refine find?_of_mem (mem_put.mpr (Or.inr ⟨hx.1, ?_⟩)) hx.2
      rw [hx.2]
      exact fun hkr => hk hkr.symm
    | none =>
      rw [find?_eq_none_iff] at h ⊢
      intro x hx
      rcases mem_put.mp hx with rfl | ⟨hx, -⟩
      · exact hk
      · exact h x hx

/-- Putting back the row that is already there changes nothing. -/
theorem put_self {t : Table key} {r : ρ} (h : t.find? (key r) = some r) : t.put r = t := by
  apply Table.ext
  rw [put_rows_of_find? h]
  conv_rhs => rw [← List.map_id t.rows]
  refine List.map_congr_left fun x hx => ?_
  by_cases hk : key x = key r
  · simp [t.eq_of_key_eq hx (mem_of_find? h) hk]
  · simp [hk]

/-- The second of two writes under one key is what remains. -/
theorem put_put {t : Table key} {r r' : ρ} (h : key r = key r') : (t.put r).put r' = t.put r' := by
  apply Table.ext
  have hput : (t.put r).find? (key r') = some r := by rw [find?_put, if_pos h]
  rw [put_rows_of_find? hput]
  cases hfind : t.find? (key r') with
  | some x =>
    rw [put_rows_of_find? hfind, put_rows_of_find? (h ▸ hfind), List.map_map]
    refine List.map_congr_left fun y _ => ?_
    by_cases hk : key y = key r' <;> simp [h, hk]
  | none =>
    rw [put_rows_of_new hfind, put_rows_of_new (h ▸ hfind), List.map_append]
    have hkeep : (t.rows.map fun y => if key y = key r' then r' else y) = t.rows := by
      conv_rhs => rw [← List.map_id t.rows]
      refine List.map_congr_left fun y hy => ?_
      simp [find?_eq_none_iff.mp hfind y hy]
    rw [hkeep]
    simp [h]

/-! ## `insertNew` -/

/-- Append the row `r` unless its key is taken. -/
def insertNew (t : Table key) (r : ρ) : Table key :=
  match t.find? (key r) with
  | some _ => t
  | none => t.put r

@[simp] theorem find?_insertNew (t : Table key) (r : ρ) (k : κ) :
    (t.insertNew r).find? k = (t.find? k).or (if key r = k then some r else none) := by
  unfold insertNew
  cases h : t.find? (key r) with
  | some x =>
    by_cases hk : key r = k
    · subst hk; simp [h]
    · simp [hk]
  | none =>
    simp only [find?_put]
    by_cases hk : key r = k
    · subst hk; simp [h]
    · simp [hk]

theorem mem_insertNew {t : Table key} {r x : ρ} :
    x ∈ (t.insertNew r).rows ↔ x ∈ t.rows ∨ (x = r ∧ t.find? (key r) = none) := by
  unfold insertNew
  cases h : t.find? (key r) with
  | some y => simp
  | none => simp [put_rows_of_new h]

/-! ## Lookup after `deleteWhere` -/

@[simp] theorem find?_deleteWhere (t : Table key) (p : ρ → Bool) (k : κ) :
    (t.deleteWhere p).find? k = (t.find? k).filter fun r => !p r := by
  cases h : t.find? k with
  | none =>
    rw [Option.filter_none, find?_eq_none_iff]
    exact fun x hx => find?_eq_none_iff.mp h x (mem_deleteWhere.mp hx).1
  | some x =>
    have hx := find?_eq_some_iff.mp h
    by_cases hp : p x = true
    · simp only [Option.filter_some, hp, Bool.not_true, Bool.false_eq_true, ite_false]
      rw [find?_eq_none_iff]
      intro y hy hk
      have hy' := mem_deleteWhere.mp hy
      rw [t.eq_of_key_eq hy'.1 hx.1 (hk.trans hx.2.symm), hp] at hy'
      exact absurd hy'.2 (by simp)
    · have hp' : p x = false := by simpa using hp
      simp only [Option.filter_some, hp', Bool.not_false, ite_true]
      exact find?_of_mem (mem_deleteWhere.mpr ⟨hx.1, hp'⟩) hx.2

theorem find?_deleteWhere_of_not {t : Table key} {p : ρ → Bool} {k : κ}
    (h : ∀ r, key r = k → p r = false) : (t.deleteWhere p).find? k = t.find? k := by
  rw [find?_deleteWhere]
  cases hfind : t.find? k with
  | none => rfl
  | some r => rw [Option.filter_some, h r (key_of_find? hfind), Bool.not_false, if_pos rfl]

/-! ## Lists of writes -/

/-- Put the rows `rs`, in order. -/
def putAll (t : Table key) (rs : List ρ) : Table key := rs.foldl put t

@[simp] theorem putAll_nil (t : Table key) : t.putAll [] = t := rfl

@[simp] theorem putAll_cons (t : Table key) (r : ρ) (rs : List ρ) :
    t.putAll (r :: rs) = (t.put r).putAll rs := rfl

/-- Rows with pairwise distinct new keys are appended. -/
theorem putAll_rows_of_new {rs : List ρ} :
    ∀ {t : Table key}, (rs.map key).Nodup → (∀ r ∈ rs, t.find? (key r) = none) →
      (t.putAll rs).rows = t.rows ++ rs := by
  induction rs with
  | nil => intro t _ _; simp
  | cons r rs ih =>
    intro t hnd hnew
    rw [List.map_cons, List.nodup_cons] at hnd
    rw [putAll_cons, ih hnd.2, put_rows_of_new (hnew r List.mem_cons_self), List.append_assoc]
    · rfl
    · intro x hx
      rw [find?_put, if_neg]
      · exact hnew x (List.mem_cons_of_mem _ hx)
      · exact fun hk => hnd.1 (List.mem_map.mpr ⟨x, hx, hk.symm⟩)

/-- Insert the rows `rs` whose keys are free, in order. -/
def insertAllNew (t : Table key) (rs : List ρ) : Table key := rs.foldl insertNew t

@[simp] theorem insertAllNew_nil (t : Table key) : t.insertAllNew [] = t := rfl

@[simp] theorem insertAllNew_cons (t : Table key) (r : ρ) (rs : List ρ) :
    t.insertAllNew (r :: rs) = (t.insertNew r).insertAllNew rs := rfl

/-- Rows that are there stay as they are. -/
theorem find?_insertAllNew {t : Table key} {rs : List ρ} {k : κ} {r : ρ} (h : t.find? k = some r) :
    (t.insertAllNew rs).find? k = some r := by
  induction rs generalizing t with
  | nil => exact h
  | cons x rs ih =>
    apply ih
    rw [find?_insertNew, h, Option.some_or]

/-- New rows come last, in order. -/
theorem insertAllNew_rows (t : Table key) (rs : List ρ) :
    ∃ added, (t.insertAllNew rs).rows = t.rows ++ added ∧ added.Sublist rs := by
  induction rs generalizing t with
  | nil => exact ⟨[], (List.append_nil _).symm, List.Sublist.refl _⟩
  | cons r rs ih =>
    obtain ⟨added, hadded, hsub⟩ := ih (t.insertNew r)
    rw [insertAllNew_cons, hadded, insertNew]
    split
    · exact ⟨added, rfl, hsub.cons r⟩
    · rename_i hnone
      rw [put_rows_of_new hnone, List.append_assoc]
      exact ⟨_, rfl, hsub.cons_cons r⟩

/-- A new row is one of the inserted rows. -/
theorem mem_of_mem_insertAllNew {t : Table key} {rs : List ρ} {x : ρ}
    (h : x ∈ (t.insertAllNew rs).rows) : x ∈ t.rows ∨ (x ∈ rs ∧ t.find? (key x) = none) := by
  induction rs generalizing t with
  | nil => exact Or.inl h
  | cons r rs ih =>
    rcases ih h with hx | ⟨hx, hnone⟩
    · rcases mem_insertNew.mp hx with hx | ⟨rfl, hnone⟩
      · exact Or.inl hx
      · exact Or.inr ⟨List.mem_cons_self, hnone⟩
    · rw [find?_insertNew, Option.or_eq_none_iff] at hnone
      exact Or.inr ⟨List.mem_cons_of_mem _ hx, hnone.1⟩

/-- Every row that was to be inserted has its key in the table. -/
theorem find?_insertAllNew_isSome {t : Table key} {rs : List ρ} {r : ρ} (h : r ∈ rs) :
    ((t.insertAllNew rs).find? (key r)).isSome = true := by
  induction rs generalizing t with
  | nil => cases h
  | cons x rs ih =>
    rcases List.mem_cons.mp h with rfl | h
    · have hx : ((t.insertNew r).find? (key r)).isSome = true := by simp
      obtain ⟨y, hy⟩ := Option.isSome_iff_exists.mp hx
      rw [insertAllNew_cons, find?_insertAllNew hy]
      rfl
    · exact ih h

/-- An insertion absorbs every row exactly when every key is taken. -/
theorem insertAllNew_eq_self_iff {t : Table key} {rs : List ρ} :
    t.insertAllNew rs = t ↔ ∀ r ∈ rs, (t.find? (key r)).isSome = true := by
  constructor
  · intro h r hr
    rw [← h]
    exact find?_insertAllNew_isSome hr
  · intro h
    induction rs with
    | nil => rfl
    | cons r rs ih =>
      obtain ⟨x, hx⟩ := Option.isSome_iff_exists.mp (h r List.mem_cons_self)
      rw [insertAllNew_cons, insertNew, hx]
      exact ih fun y hy => h y (List.mem_cons_of_mem _ hy)

/-- Rows with pairwise distinct new keys are all inserted. -/
theorem insertAllNew_rows_of_new {rs : List ρ} {t : Table key} (hnd : (rs.map key).Nodup)
    (hnew : ∀ r ∈ rs, t.find? (key r) = none) : (t.insertAllNew rs).rows = t.rows ++ rs := by
  induction rs generalizing t with
  | nil => simp
  | cons r rs ih =>
    rw [List.map_cons, List.nodup_cons] at hnd
    have hr : (t.insertNew r).rows = t.rows ++ [r] := by
      have h := hnew r List.mem_cons_self
      rw [insertNew, h]
      exact put_rows_of_new h
    rw [insertAllNew_cons, ih hnd.2, hr, List.append_assoc]
    · rfl
    · intro x hx
      have hne : key r ≠ key x := fun hk => hnd.1 (List.mem_map.mpr ⟨x, hx, hk.symm⟩)
      rw [find?_insertNew, hnew x (List.mem_cons_of_mem _ hx), if_neg hne, Option.or_none]

/-- Lookup in a table that grew at its end. -/
theorem find?_of_rows_append {t t' : Table key} {rs : List ρ} (h : t'.rows = t.rows ++ rs)
    {k : κ} {r : ρ} (hr : t.find? k = some r) : t'.find? k = some r := by
  have hm := find?_eq_some_iff.mp hr
  exact find?_of_mem (h ▸ List.mem_append_left rs hm.1) hm.2

end Table

end Relational
