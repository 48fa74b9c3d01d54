import Instructed.Lib.System
import Instructed.Lib.Table

/-!
# The part of a table that one party sees

`Table.restrict t p` keeps the rows whose key meets `p`. A party that reads and writes such rows only
cannot tell a table from its part, and what the others write outside the part leaves it alone. So a
run of all parties looks to one of them like a run in which the others did nothing.

* `find?_restrict`, `put_restrict`, `insertAllNew_restrict`, `deleteWhere_restrict`: a write inside the
  part, read off the part;
* `put_restrict_of_not`, `deleteWhere_restrict_of_not`, `insertAllNew_restrict_of_not`: a write outside
  the part;
* `System.run_simulate`: steps that keep a relation between two systems, in a whole run.
-/

namespace Relational

variable {ρ κ : Type} {key : ρ → κ}

namespace Table

/-- The rows whose keys meet `p`. -/
def restrict (t : Table key) (p : κ → Bool) : Table key := t.deleteWhere fun r => !p (key r)

variable {t : Table key} {p : κ → Bool} {r : ρ}

theorem restrict_rows (t : Table key) (p : κ → Bool) :
    (t.restrict p).rows = t.rows.filter fun r => p (key r) := by
  simp [restrict, deleteWhere]

theorem mem_restrict {x : ρ} : x ∈ (t.restrict p).rows ↔ x ∈ t.rows ∧ p (key x) = true := by
  rw [restrict_rows, List.mem_filter]

/-- Two predicates that agree on the rows select the same part. -/
theorem restrict_congr {q : κ → Bool} (h : ∀ r ∈ t.rows, p (key r) = q (key r)) :
    t.restrict p = t.restrict q := by
  apply Table.ext
  rw [restrict_rows, restrict_rows]
  exact List.filter_congr h

theorem restrict_restrict (t : Table key) (p : κ → Bool) : (t.restrict p).restrict p = t.restrict p := by
  apply Table.ext
  rw [restrict_rows, restrict_rows, List.filter_filter]
  exact List.filter_congr fun r _ => Bool.and_self _

theorem restrict_eq_empty (h : ∀ r ∈ t.rows, p (key r) = false) : t.restrict p = empty key := by
  apply Table.ext
  rw [restrict_rows, rows_empty, List.filter_eq_nil_iff]
  intro r hr
  rw [h r hr]
  exact Bool.false_ne_true

/-! ## Deleting -/

theorem deleteWhere_restrict (t : Table key) (p : κ → Bool) (q : ρ → Bool) :
    (t.deleteWhere q).restrict p = (t.restrict p).deleteWhere q := by
  apply Table.ext
  rw [restrict_rows]
  simp only [deleteWhere, restrict_rows, List.filter_filter]
  exact List.filter_congr fun r _ => Bool.and_comm _ _

theorem deleteWhere_restrict_of_not {q : ρ → Bool} (h : ∀ r, q r = true → p (key r) = false) :
    (t.deleteWhere q).restrict p = t.restrict p := by
  rw [deleteWhere_restrict]
  refine deleteWhere_eq_self fun r hr => ?_
  by_contra hq
  have hp := h r ((Bool.not_eq_false _).mp hq)
  rw [(mem_restrict.mp hr).2] at hp
  cases hp

/-- The rows that go are all in the part. -/
theorem length_deleteWhere_restrict {q : ρ → Bool} (h : ∀ r, q r = true → p (key r) = true) :
    (t.restrict p).rows.length - ((t.restrict p).deleteWhere q).rows.length =
      t.rows.length - (t.deleteWhere q).rows.length := by
  have hcount : ∀ rows : List ρ, rows.length - (rows.filter fun r => !q r).length =
      rows.countP q := by
    intro rows
    have hsplit := List.length_eq_countP_add_countP q (l := rows)
    rw [← List.countP_eq_length_filter]
    have hnot : rows.countP (fun r => !q r) = rows.countP fun r => ¬ q r = true :=
      List.countP_congr fun r _ => by simp
    omega
  have hpart : (t.restrict p).rows.countP q = t.rows.countP q := by
    rw [restrict_rows, List.countP_filter]
    refine List.countP_congr fun r _ => ?_
    rw [Bool.and_eq_true, and_iff_left_iff_imp]
    exact h r
  simp only [deleteWhere]
  rw [hcount, hcount, hpart]

variable [DecidableEq κ]

/-! ## Lookup and writes -/

theorem find?_restrict {k : κ} (h : p k = true) : (t.restrict p).find? k = t.find? k := by
  rw [restrict, find?_deleteWhere]
  cases hfind : t.find? k with
  | none => rfl
  | some x => simp [key_of_find? hfind, h]

theorem put_restrict (h : p (key r) = true) : (t.put r).restrict p = (t.restrict p).put r := by
  apply Table.ext
  rw [restrict_rows]
  cases hfind : t.find? (key r) with
  | some x =>
    have hfind' : (t.restrict p).find? (key r) = some x := (find?_restrict h).trans hfind
    rw [put_rows_of_find? hfind, put_rows_of_find? hfind', restrict_rows, List.filter_map]
    congr 1
    refine List.filter_congr fun y _ => ?_
    by_cases hk : key y = key r
    · simp [hk]
    · simp [hk]
  | none =>
    have hfind' : (t.restrict p).find? (key r) = none := (find?_restrict h).trans hfind
    rw [put_rows_of_new hfind, put_rows_of_new hfind', restrict_rows, List.filter_append]
    simp [h]

theorem put_restrict_of_not (h : p (key r) = false) : (t.put r).restrict p = t.restrict p := by
  apply Table.ext
  rw [restrict_rows, restrict_rows]
  cases hfind : t.find? (key r) with
  | some x =>
    rw [put_rows_of_find? hfind, List.filter_map]
    have hsame : (t.rows.filter ((fun y => p (key y)) ∘ fun y => if key y = key r then r else y)) =
        t.rows.filter fun y => p (key y) := by
      refine List.filter_congr fun y _ => ?_
      by_cases hk : key y = key r
      · simp [hk]
      · simp [hk]
    rw [hsame]
    conv_rhs => rw [← List.map_id (t.rows.filter fun y => p (key y))]
    refine List.map_congr_left fun y hy => ?_
    have hne : key y ≠ key r := by
      intro hk
      have hp := (List.mem_filter.mp hy).2
      rw [hk, h] at hp
      cases hp
    simp [hne]
  | none =>
    rw [put_rows_of_new hfind, List.filter_append]
    simp [h]

theorem insertNew_restrict (h : p (key r) = true) :
    (t.insertNew r).restrict p = (t.restrict p).insertNew r := by
  unfold insertNew
  rw [find?_restrict h]
  cases t.find? (key r) with
  | some x => rfl
  | none => exact put_restrict h

theorem insertNew_restrict_of_not (h : p (key r) = false) :
    (t.insertNew r).restrict p = t.restrict p := by
  unfold insertNew
  cases t.find? (key r) with
  | some x => rfl
  | none => exact put_restrict_of_not h

theorem insertAllNew_restrict {rs : List ρ} (h : ∀ r ∈ rs, p (key r) = true) :
    (t.insertAllNew rs).restrict p = (t.restrict p).insertAllNew rs := by
  induction rs generalizing t with
  | nil => rfl
  | cons r rs ih =>
    rw [insertAllNew_cons, insertAllNew_cons, ih fun x hx => h x (List.mem_cons_of_mem _ hx),
      insertNew_restrict (h r List.mem_cons_self)]

theorem insertAllNew_restrict_of_not {rs : List ρ} (h : ∀ r ∈ rs, p (key r) = false) :
    (t.insertAllNew rs).restrict p = t.restrict p := by
  induction rs generalizing t with
  | nil => rfl
  | cons r rs ih =>
    rw [insertAllNew_cons, ih fun x hx => h x (List.mem_cons_of_mem _ hx),
      insertNew_restrict_of_not (h r List.mem_cons_self)]

/-- The rows that are new are all in the part. -/
theorem length_insertAllNew_restrict {rs : List ρ} (h : ∀ r ∈ rs, p (key r) = true) :
    ((t.restrict p).insertAllNew rs).rows.length - (t.restrict p).rows.length =
      (t.insertAllNew rs).rows.length - t.rows.length := by
  obtain ⟨added, hadded, hsub⟩ := t.insertAllNew_rows rs
  have hall : (added.filter fun r => p (key r)) = added :=
    List.filter_eq_self.mpr fun r hr => h r (hsub.subset hr)
  rw [← insertAllNew_restrict h, restrict_rows, restrict_rows, hadded, List.filter_append, hall,
    List.length_append, List.length_append, Nat.add_sub_cancel_left, Nat.add_sub_cancel_left]

end Table

end Relational

namespace Transition

universe u v u' v'

variable {σ : Type u} {ε : Type v} {τ : Type u'} {ε' : Type v'}

/-- **A relation that every step keeps, a run keeps.** The steps of the second run answer those of the
    first, label by label. -/
theorem System.run_simulate {M : System σ ε} {N : System τ ε'} {R : σ → τ → Prop} {Q : ε → Prop}
    {f : ε → ε'} (hstep : ∀ s t e s', Q e → R s t → M.step s e = some s' →
      ∃ t', N.step t (f e) = some t' ∧ R s' t')
    {es : List ε} (hQ : ∀ e ∈ es, Q e) {s s' : σ} {t : τ} (hR : R s t) (h : M.run s es = some s') :
    ∃ t', N.run t (es.map f) = some t' ∧ R s' t' := by
  induction es generalizing s t with
  | nil =>
    obtain rfl := Option.some.inj h
    exact ⟨t, rfl, hR⟩
  | cons e es ih =>
    obtain ⟨s₁, hs₁, h⟩ := System.run_cons_eq_some.mp h
    obtain ⟨t₁, ht₁, hR₁⟩ := hstep s t e s₁ (hQ e List.mem_cons_self) hR hs₁
    obtain ⟨t', ht', hR'⟩ := ih (fun x hx => hQ x (List.mem_cons_of_mem _ hx)) hR₁ h
    exact ⟨t', System.run_cons_eq_some.mpr ⟨t₁, ht₁, ht'⟩, hR'⟩

end Transition
